import RcqServer.Sweeps.Accounts

/-!
# The guest sweep deletes guests only

The row of a candidate is locked and looked at again before it is deleted, so what is deleted is a
guest that meets the condition of its sweep.  A settle that comes in between either waits for the lock
and finds no row, or was committed before and is seen.

That the never-polled test tells who has never polled is an invariant of the two columns: a proven guest
that somebody has stamped since its mint was last seen an hour before `guest_since` at the earliest, and
the gap that the test asks for is half a day at least.
-/

namespace RcqServer.Sweeps

open ReadCommitted Prog Outline List Option
open Guests (Status)

/-! ## The system -/

/-- What arrives, settles, shows signs of life and sweeps.  `tick` lets time pass. -/
inductive GuestRequest
  | register (uin : Uin) (nickname : List Char) (resident : Bool)
  | guestJoin (uin : Uin) (nickname : List Char)
  | addGuest (uin : Uin) (nickname : List Char)
  | claimSeat (uin : Uin)
  | guestSettle (uin : Uin) (gate : Option HttpError) (resident : Bool)
  | residencyRedeem (uin : Uin) (refusal : Option HttpError)
  | convertGuest (uin : Uin) (refusal : Option HttpError) (resident : Bool)
  | touchPoll (uin : Uin) (due : Bool)
  | onSocket (uin : Uin)
  | ping (uin : Uin)
  | setStatus (uin : Uin)
  | guestSweep (limits : Limits) (later : Uin → Limits)
  | tick (seconds : ℕ)

variable (cfg : Config)

def guestHandler : GuestRequest → Handler Unit
  | .register uin nickname resident => register uin nickname resident
  | .guestJoin uin nickname => guestJoin cfg uin nickname
  | .addGuest uin nickname => addGuest cfg uin nickname
  | .claimSeat uin => claimSeat uin
  | .guestSettle uin gate resident => guestSettle uin gate resident
  | .residencyRedeem uin refusal => residencyRedeem uin refusal
  | .convertGuest uin refusal resident => convertGuest uin refusal resident
  | .touchPoll uin due => touchPoll uin due
  | .onSocket uin => onSocket uin
  | .ping uin => ping uin
  | .setStatus uin => setStatus uin
  | .guestSweep limits later => guestSweep cfg limits later
  | .tick seconds => .effect .clock fun _ e => { e with now := e.now + seconds }

abbrev GuestWorld := World Db Ext Write Label HttpError GuestRequest Unit

/-- An island on which nobody has been yet. -/
abbrev GuestWorld.initial (now : ℤ) : GuestWorld := .fresh ⟨∅, ∅⟩ ⟨now⟩

/-! ## The two columns -/

/-- What the columns of an account say about its past. -/
structure User.Dated (t : ℤ) (row : User) : Prop where
  settled : row.settled = true → row.guestStatus = none
  proven : row.guestStatus = some .proven → ∃ since, row.guestSince = some since ∧ since ≤ t ∧
    (row.stamped = true → since - pollStampLag ≤ row.lastSeen)

variable {row : User} {t : ℤ} {limits : Limits}

theorem User.Dated.later {t' : ℤ} (h : row.Dated t) (ht : t ≤ t') : row.Dated t' := by
  refine ⟨h.settled, fun hproven => ?_⟩
  obtain ⟨since, hsince, hpast, hstamp⟩ := h.proven hproven
  exact ⟨since, hsince, hpast.trans ht, hstamp⟩

/-- The gap of the never-polled test is wider than the lag of a stamp. -/
theorem pollStampLag_lt_neverPolledGap : pollStampLag < neverPolledGap cfg := by
  have hday : span 1 ≤ mintBackdate cfg := by
    unfold mintBackdate
    split
    · unfold span
      omega
    · decide
  unfold neverPolledGap pollStampLag
  unfold span at *
  omega

/-- Whoever is eligible is a guest. -/
theorem guestStatus_of_eligible {cfg : Config} {kind : Kind}
    (h : eligible cfg limits t row kind = true) : row.guestStatus ≠ none := by
  intro hnone
  cases kind <;> simp [eligible, hnone] at h

/-- Whoever has been stamped is not taken for never polled. -/
theorem stamped_of_eligible {cfg : Config} {t' : ℤ}
    (hdated : row.Dated t') (h : eligible cfg limits t row .b = true) : row.stamped = false := by
  simp only [eligible, Bool.and_eq_true, beq_iff_eq, Option.any_eq_true, decide_eq_true_eq] at h
  obtain ⟨hproven, since, hsince, -, hlast⟩ := h
  obtain ⟨since', hsince', -, hstamp⟩ := hdated.proven hproven
  cases hsince.symm.trans hsince'
  refine Bool.eq_false_iff.mpr fun hstamped => ?_
  have hlag := hstamp hstamped
  have hgap := pollStampLag_lt_neverPolledGap cfg
  omega

namespace GuestSweep

variable {cfg} {r : GuestRequest} {l : Label} {ws : List Write} {s s' : State} {uin : Uin}

/-! ## The outline -/

/-- What a commit may make of a row, at the time `t`: a sound row that is native if it was, or
nothing, if it is the guest sweep that has found it eligible. -/
def Becomes (cfg : Config) (r : GuestRequest) (l : Label) (t : ℤ) (uin : Uin) (old : Option User) :
    Option User → Prop
  | some row => row.Dated t ∧ ∀ o, old = some o → o.guestStatus = none → row.guestStatus = none
  | none => ∃ limits later kind t', r = .guestSweep limits later ∧ l = .purge uin kind ∧ t' ≤ t ∧
      ∀ o, old = some o → eligible cfg (later uin) t' o kind = true

def outline (cfg : Config) : Outline Db Ext Write Label GuestRequest where
  Inv s := ∀ uin row, s.db.users.get uin = some row → row.Dated s.ext.now
  Rely _ _ ws s s' := s.ext.now ≤ s'.ext.now ∧
    (∀ uin, RowKey.user uin ∈ lockedRows Db ws → s'.db.users.get uin = s.db.users.get uin) ∧
    ∀ uin row, s.db.users.get uin = some row → row.guestStatus = none →
      ∃ row', s'.db.users.get uin = some row' ∧ row'.guestStatus = none
  Guar r l ws s s' := s.ext.now ≤ s'.ext.now ∧
    ∀ uin, s'.db.users.get uin = s.db.users.get uin ∨ RowKey.user uin ∈ lockedRows Db ws ∧
      Becomes cfg r l s.ext.now uin (s.db.users.get uin) (s'.db.users.get uin)
  Start _ _ := True
  Cond _ _ _ := True
  Apart _ _ _ _ := True

theorem coherent (cfg : Config) : (outline cfg).Coherent where
  rely_refl _ _ _ _ := ⟨le_rfl, fun _ _ => rfl, fun _ row hrow hnative => ⟨row, hrow, hnative⟩⟩
  rely_trans := by
    rintro r l ws s₁ s₂ s₃ ⟨hnow, hlocked, hnative⟩ ⟨hnow', hlocked', hnative'⟩
    refine ⟨hnow.trans hnow', fun uin hu => (hlocked' uin hu).trans (hlocked uin hu), ?_⟩
    intro uin row hrow hstatus
    obtain ⟨row', hrow', hstatus'⟩ := hnative uin row hrow hstatus
    exact hnative' uin row' hrow' hstatus'
  guar_refl _ _ _ _ := ⟨le_rfl, fun _ => .inl rfl⟩
  rely_of_guar := by
    rintro r l ws r' l' ws' s s' - ⟨-, hnow, hguar⟩ hdisjoint -
    refine ⟨hnow, fun uin hu => ?_, fun uin row hrow hstatus => ?_⟩
    · exact (hguar uin).resolve_right fun h => hdisjoint _ hu h.1
    · rcases hguar uin with hsame | ⟨-, hbecomes⟩
      · exact ⟨row, hsame.trans hrow, hstatus⟩
      · cases hnew : s'.db.users.get uin with
        | some row' =>
          rw [hnew] at hbecomes
          exact ⟨row', rfl, hbecomes.2 row hrow hstatus⟩
        | none =>
          rw [hnew] at hbecomes
          obtain ⟨limits, later, kind, t', -, -, -, heligible⟩ := hbecomes
          exact absurd hstatus (guestStatus_of_eligible (heligible row hrow))

/-- Each pending write of an account is one that may be committed. -/
def Pending (cfg : Config) (r : GuestRequest) (l : Label) (ws : List Write) (s : State) : Prop :=
  ∀ uin row, Write.user uin row ∈ ws → Becomes cfg r l s.ext.now uin (s.db.users.get uin) row

variable {row loaded : User} {t : ℤ} {limits : Limits} {l' : Option Label}
  {f : ℤ → User → User} {nickname : List Char} {resident : Bool}

theorem Becomes.later {t' : ℤ} {old new : Option User} (h : Becomes cfg r l t uin old new)
    (ht : t ≤ t') : Becomes cfg r l t' uin old new := by
  cases new with
  | some row => exact ⟨h.1.later ht, h.2⟩
  | none =>
    obtain ⟨limits, later, kind, t₀, hr, hl, ht₀, heligible⟩ := h
    exact ⟨limits, later, kind, t₀, hr, hl, ht₀.trans ht, heligible⟩

theorem mem_locked {row : Option User} (h : Write.user uin row ∈ ws) :
    RowKey.user uin ∈ lockedRows Db ws :=
  mem_map.mpr ⟨_, h, rfl⟩

theorem Pending.stable (h : Pending cfg r l ws s)
    (hrely : (outline cfg).Rely r l' ws s s') : Pending cfg r l ws s' := by
  intro uin row hrow
  rw [hrely.2.1 uin (mem_locked hrow)]
  exact (h uin row hrow).later hrely.1

/-- The commit of such writes. -/
theorem step_commit (hinv : (outline cfg).Inv s) (h : Pending cfg r l ws s) :
    (outline cfg).Step r l ws s (s.commit ws s.ext) := by
  have hrows : ∀ uin, (s.view ws).users.get uin = s.db.users.get uin ∨
      Write.user uin ((s.view ws).users.get uin) ∈ ws :=
    fun uin => sets_users.get_applyAll ws s.db uin
  refine ⟨fun uin row hrow => ?_, le_rfl, fun uin => ?_⟩
  · rcases hrows uin with hsame | hmem
    · exact hinv uin row (hsame.symm.trans hrow)
    · have hbecomes := h uin _ hmem
      rw [Shared.commit_db] at hrow
      rw [hrow] at hbecomes
      exact hbecomes.1
  · exact (hrows uin).imp id fun hmem => ⟨mem_locked hmem, h uin _ hmem⟩

/-! ## Rules -/

variable {α β : Type} {Q : α → List Write → State → Prop}

theorem wp_commitOnly (h : Pending cfg r l ws s) {Q : Unit → List Write → State → Prop}
    (hQ : ∀ s', Q () [] s') : (outline cfg).wp r (commitOnly l : Handler Unit) Q ws s :=
  fun _ hrely hinv _ => ⟨step_commit hinv (h.stable hrely), hQ _⟩

theorem wp_committed {p : Handler α}
    (hp : (outline cfg).wp r p (fun _ ws s => Pending cfg r .commit ws s) [] s) :
    (outline cfg).Safe r (p.bind fun _ => commitOnly .commit) [] s :=
  wp_seq hp fun _ _ _ h => wp_commitOnly h fun _ => trivial

theorem wp_refuseAs {e : Option HttpError} {Q : Unit → List Write → State → Prop} (h : Q () ws s) :
    (outline cfg).wp r (refuseAs e) Q ws s := by
  cases e with
  | none => exact h
  | some e => exact trivial

/-- What holds of the row of a number, and goes on to hold. -/
def Native (loaded : User) (uin : Uin) (s : State) : Prop :=
  loaded.guestStatus = none → ∃ row, s.db.users.get uin = some row ∧ row.guestStatus = none

theorem Native.stable (h : Native loaded uin s)
    (hrely : (outline cfg).Rely r l' ws s s') : Native loaded uin s' := by
  intro hloaded
  obtain ⟨row, hrow, hnative⟩ := h hloaded
  exact hrely.2.2 uin row hrow hnative

theorem wp_getUser (s : State) : (outline cfg).wp r (getUser uin)
      (fun user ws s => ws = [] ∧ ∀ loaded ∈ user, Native loaded uin s) [] s := by
  refine wp_read (coherent cfg) fun s' _ _ _ => ⟨rfl, fun loaded hloaded hnative => ?_⟩
  exact ⟨loaded, hloaded, hnative⟩

/-- An `INSERT` of a sound row. -/
theorem wp_insertUser {row : ℤ → User} (hrow : ∀ t, (row t).Dated t) (s : State) :
    (outline cfg).wp r (insertUser uin row) (fun _ ws s => Pending cfg r l ws s) [] s := by
  intro s' _ hinv _
  rw [Shared.tell_same]
  refine ⟨⟨hinv, le_rfl, fun _ => .inl rfl⟩, wp_raiseIf fun hfree => ?_⟩
  have hnone : s'.db.users.get uin = none := by simpa using hfree
  intro u new hmem
  have hnew := mem_singleton.mp hmem
  rw [Shared.view, applyAll_nil, hnone, getD_none] at hnew
  cases hnew
  refine ⟨hrow _, fun o ho => ?_⟩
  rw [hnone] at ho
  cases ho

/-- An `UPDATE` that keeps rows sound, from where something holds of the row that goes on to hold. -/
theorem wp_updateUser {K : State → Prop} {p : ℤ → User → Bool}
    (hK : ∀ s', (outline cfg).Rely r (some .updateUser) [] s s' → K s')
    (hf : ∀ s' old, K s' → s'.db.users.get uin = some old → old.Dated s'.ext.now →
      p s'.ext.now old = true → (f s'.ext.now old).Dated s'.ext.now ∧
        (old.guestStatus = none → (f s'.ext.now old).guestStatus = none)) :
    (outline cfg).wp r (updateUser uin p f) (fun _ ws s => Pending cfg r l ws s) [] s := by
  refine wp_write (coherent cfg) fun s' hrely hinv _ => fun u new hmem => ?_
  obtain ⟨old, hold, hnew⟩ := map_eq_some_iff.mp (mem_toList.mp hmem)
  cases hnew
  obtain ⟨hold, hp⟩ := filter_eq_some_iff.mp hold
  obtain ⟨hdated, hnative⟩ := hf s' old (hK s' hrely) hold (hinv uin old hold) hp
  refine ⟨hdated, fun o ho => ?_⟩
  cases hold.symm.trans ho
  exact hnative

theorem wp_saveUser {K : State → Prop}
    (hK : ∀ s', (outline cfg).Rely r (some .updateUser) [] s s' → K s')
    (hf : ∀ s' old, K s' → s'.db.users.get uin = some old → old.Dated s'.ext.now →
      (f s'.ext.now old).Dated s'.ext.now ∧
        (old.guestStatus = none → (f s'.ext.now old).guestStatus = none)) :
    (outline cfg).wp r (saveUser uin f) (fun _ ws s => Pending cfg r l ws s) [] s := by
  refine wp_seq (wp_updateUser (l := l) hK fun s' old h hold hdated _ => hf s' old h hold hdated) ?_
  exact fun found ws s h => wp_raiseIf fun _ => h

/-! ## The requests -/

theorem register_safe (s : State) : (outline cfg).Safe r (register uin nickname resident) [] s := by
  refine wp_committed (wp_insertUser (fun t => ⟨?_, ?_⟩) s)
  · exact nofun
  · exact nofun

/-- A guest that is minted now. -/
theorem guestRow_dated (nickname : List Char) (status : Status) (backdate t : ℤ) :
    (guestRow nickname status backdate t).Dated t :=
  ⟨nofun, fun _ => ⟨t, rfl, le_refl t, nofun⟩⟩

theorem guestJoin_safe (s : State) : (outline cfg).Safe r (guestJoin cfg uin nickname) [] s :=
  wp_committed (wp_insertUser (guestRow_dated _ _ _) s)

theorem addGuest_safe (s : State) : (outline cfg).Safe r (addGuest cfg uin nickname) [] s :=
  wp_committed (wp_insertUser (guestRow_dated _ _ _) s)

theorem claimSeat_safe (s : State) : (outline cfg).Safe r (claimSeat uin) [] s := by
  refine wp_committed (wp_updateUser (K := fun _ => True) (fun _ _ => trivial) ?_)
  intro s' old _ _ hdated hadded
  have hstatus : old.guestStatus = some .added := by simpa using hadded
  refine ⟨⟨fun hsettled => ?_, fun _ => ⟨s'.ext.now, rfl, le_rfl, fun _ => le_rfl⟩⟩,
    fun hnative => ?_⟩
  · have hnone := hdated.settled hsettled
    rw [hstatus] at hnone
    cases hnone
  · rw [hstatus] at hnative
    cases hnative

/-- A row whose guest columns are cleared is native. -/
theorem clearGuestColumns_native {old : User} (hs : Native loaded uin s)
    (hold : s.db.users.get uin = some old) : (clearGuestColumns loaded old).guestStatus = none := by
  unfold clearGuestColumns
  dsimp only
  split
  · rfl
  · rename_i hnative
    obtain ⟨row, hrow, hstatus⟩ := hs (not_isSome_iff_eq_none.mp hnative)
    cases hold.symm.trans hrow
    exact hstatus

/-- An account that becomes native. -/
theorem wp_settle (hs : Native loaded uin s)
    (hf : ∀ t row, (f t row).guestStatus = (clearGuestColumns loaded row).guestStatus) :
    (outline cfg).Safe r ((saveUser uin f).bind fun _ => commitOnly .commit) [] s := by
  refine wp_committed (wp_saveUser (fun s' hrely => hs.stable hrely) fun s' old hs' hold _ => ?_)
  have hnative : (f s'.ext.now old).guestStatus = none :=
    (hf _ _).trans (clearGuestColumns_native hs' hold)
  refine ⟨⟨fun _ => hnative, fun hproven => ?_⟩, fun _ => hnative⟩
  rw [hnative] at hproven
  cases hproven

theorem guestSettle_safe {gate : Option HttpError} (s : State) :
    (outline cfg).Safe r (guestSettle uin gate resident) [] s := by
  refine wp_seq (wp_getUser s) ?_
  rintro (_ | loaded) _ s ⟨rfl, hs⟩
  · exact trivial
  · refine wp_raiseIf_bind fun _ => wp_bind.mpr (wp_refuseAs ?_)
    exact wp_settle (hs loaded rfl) fun _ _ => rfl

theorem residencyRedeem_safe {refusal : Option HttpError} (s : State) :
    (outline cfg).Safe r (residencyRedeem uin refusal) [] s := by
  refine wp_seq (wp_getUser s) ?_
  rintro (_ | loaded) _ s ⟨rfl, hs⟩
  · exact trivial
  · refine wp_raiseIf_bind fun _ => wp_bind.mpr (wp_refuseAs ?_)
    exact wp_settle (hs loaded rfl) fun _ _ => rfl

theorem convertGuest_safe {refusal : Option HttpError} (s : State) :
    (outline cfg).Safe r (convertGuest uin refusal resident) [] s := by
  refine wp_bind.mpr (wp_refuseAs (wp_seq (wp_getUser s) ?_))
  rintro (_ | loaded) _ s ⟨rfl, hs⟩
  · exact trivial
  · exact wp_settle (hs loaded rfl) fun _ _ => rfl

/-- A sign of life that is at most the lag old. -/
theorem dated_of_sign {new : User} (h : row.Dated t)
    (hsettled : new.settled = row.settled) (hstatus : new.guestStatus = row.guestStatus)
    (hsince : new.guestSince = row.guestSince) (hlast : t - pollStampLag ≤ new.lastSeen) :
    new.Dated t ∧ (row.guestStatus = none → new.guestStatus = none) := by
  refine ⟨⟨fun hset => ?_, fun hproven => ?_⟩, fun hnative => hstatus.trans hnative⟩
  · exact hstatus.trans (h.settled (hsettled.symm.trans hset))
  · obtain ⟨since, hs, hpast, -⟩ := h.proven (hstatus.symm.trans hproven)
    refine ⟨since, hsince.trans hs, hpast, fun _ => ?_⟩
    exact le_trans (by omega) hlast

theorem seen_dated (h : row.Dated t) :
    (row.seen t).Dated t ∧ (row.guestStatus = none → (row.seen t).guestStatus = none) :=
  dated_of_sign h rfl rfl rfl (Int.sub_le_self t (by decide))

theorem touchPoll_safe {due : Bool} (s : State) :
    (outline cfg).Safe r (touchPoll uin due) [] s := by
  unfold touchPoll onlyIf
  split
  · refine wp_committed (wp_updateUser (K := fun _ => True) (fun _ _ => trivial) ?_)
    exact fun s' old _ _ hdated _ => dated_of_sign hdated rfl rfl rfl le_rfl
  · exact trivial

/-- The `UPDATE` of the socket and its commit. -/
theorem wp_seen (s : State) :
    (outline cfg).Safe r ((saveUser uin User.seen).bind fun _ => commitOnly .commit) [] s :=
  wp_committed (wp_saveUser (K := fun _ => True) (fun _ _ => trivial)
    fun _ _ _ _ hdated => seen_dated hdated)

theorem onSocket_safe (s : State) : (outline cfg).Safe r (onSocket uin) [] s := by
  refine wp_seq (wp_getUser s) ?_
  rintro user _ s ⟨rfl, -⟩
  unfold onlyIf
  split
  · exact wp_seen s
  · exact trivial

theorem setStatus_safe (s : State) : (outline cfg).Safe r (setStatus uin) [] s := by
  refine wp_seq (wp_getUser s) ?_
  rintro user _ s ⟨rfl, -⟩
  exact wp_raiseIf_bind fun _ => wp_seen s

theorem ping_safe (s : State) : (outline cfg).Safe r (ping uin) [] s :=
  wp_committed (wp_updateUser (K := fun _ => True) (fun _ _ => trivial)
    fun _ _ _ _ hdated _ => seen_dated hdated)

/-! ## The sweep -/

/-- A part of the sweep that only reads. -/
theorem wp_look {q : Db → Ext → α} {f : α → Handler β} {R : β → List Write → State → Prop}
    (h : ∀ a s', s.ext.now ≤ s'.ext.now → (outline cfg).wp r (f a) R [] s') :
    (outline cfg).wp r ((read l q : Handler α).bind f) R [] s :=
  wp_bind.mpr (wp_read (coherent cfg) fun _ hrely _ _ => h _ _ hrely.1)

/-- The row is locked and as it was found, and nothing but its deletion is pending. -/
structure Held (uin : Uin) (row : User) (ws : List Write) (s : State) : Prop where
  locked : RowKey.user uin ∈ lockedRows Db ws
  found : s.db.users.get uin = some row
  only : ∀ u new, Write.user u new ∈ ws → u = uin ∧ (new = some row ∨ new = none)

theorem Held.stable (h : Held uin row ws s)
    (hrely : (outline cfg).Rely r l' ws s s') : Held uin row ws s' :=
  ⟨h.locked, (hrely.2.1 uin h.locked).trans h.found, h.only⟩

theorem Held.append {new : List Write} (h : Held uin row ws s)
    (hnew : ∀ u r, Write.user u r ∈ new → u = uin ∧ r = none) : Held uin row (ws ++ new) s := by
  refine ⟨?_, h.found, fun u r hmem => ?_⟩
  · rw [lockedRows, map_append]
    exact mem_append_left _ h.locked
  · rcases mem_append.mp hmem with hmem | hmem
    · exact h.only u r hmem
    · exact ⟨(hnew u r hmem).1, .inr (hnew u r hmem).2⟩

/-- `SELECT … FOR UPDATE`: the row, locked, or nothing. -/
theorem wp_lockUser (s : State) : (outline cfg).wp r (lockUser uin)
      (fun user ws s' => s.ext.now ≤ s'.ext.now ∧ ∀ row ∈ user, Held uin row ws s') [] s := by
  refine wp_write (coherent cfg) fun s' hrely _ _ => ⟨hrely.1, fun row hrow => ?_⟩
  have hget : s'.db.users.get uin = some row := hrow
  rw [Shared.view, applyAll_nil, hget, map_some, toList_some, nil_append]
  refine ⟨mem_singleton.mpr rfl, hget, fun u new hmem => ?_⟩
  cases mem_singleton.mp hmem
  exact ⟨rfl, .inl rfl⟩

/-- The deletions of a purge concern no other account. -/
theorem wp_purgeAccount (h : Held uin row ws s) : (outline cfg).wp r (purgeAccount uin)
      (fun _ ws s' => s.ext.now ≤ s'.ext.now ∧ Held uin row ws s') ws s := by
  refine wp_seq (Q := fun _ ws s' => s.ext.now ≤ s'.ext.now ∧ Held uin row ws s')
    (wp_write (coherent cfg) fun s' hrely _ _ => ⟨hrely.1, ?_⟩) ?_
  · refine (h.stable hrely).append fun u new hmem => ?_
    obtain ⟨t, -, heq⟩ := mem_map.mp hmem
    cases heq
  · rintro _ ws s₁ ⟨hle, h⟩
    refine wp_write (coherent cfg) fun s' hrely _ _ => ⟨hle.trans hrely.1, ?_⟩
    refine (h.stable hrely).append fun u new hmem => ?_
    rcases mem_append.mp hmem with hmem | hmem
    · obtain ⟨_, -, heq⟩ := map_eq_some_iff.mp (mem_toList.mp hmem)
      cases heq
      exact ⟨rfl, rfl⟩
    · obtain ⟨t, -, heq⟩ := mem_map.mp hmem
      cases heq

variable {later : Uin → Limits}

/-- The row that was found eligible is the row that is deleted. -/
theorem pending_of_held {kind : Kind}
    (hinv : (outline cfg).Inv s) (h : Held uin row ws s) (ht : t ≤ s.ext.now)
    (heligible : eligible cfg (later uin) t row kind = true) :
    Pending cfg (.guestSweep limits later) (.purge uin kind) ws s := by
  intro u new hmem
  obtain ⟨rfl, rfl | rfl⟩ := h.only u new hmem
  · refine ⟨hinv _ row h.found, fun o ho hnative => ?_⟩
    cases h.found.symm.trans ho
    exact hnative
  · refine ⟨limits, later, kind, t, rfl, rfl, ht, fun o ho => ?_⟩
    cases h.found.symm.trans ho
    exact heligible

theorem purgeIfStillEligible_safe {kind : Kind} (s : State) :
    (outline cfg).wp (.guestSweep limits later) (purgeIfStillEligible cfg (later uin) uin kind)
      (fun _ ws _ => ws = []) [] s := by
  refine wp_read_bind (coherent cfg) fun s₀ _ _ _ => ?_
  refine wp_seq (wp_lockUser s₀) ?_
  rintro user ws s₁ ⟨hle, hheld⟩
  split
  · rename_i hstill
    obtain ⟨row, rfl, heligible⟩ := (any_eq_true _ _).mp hstill
    refine wp_seq (wp_purgeAccount (hheld row rfl)) ?_
    rintro _ ws s₂ ⟨hle', hrow⟩
    intro s₃ hrely hinv _
    exact ⟨step_commit hinv (pending_of_held hinv (hrow.stable hrely)
      ((hle.trans hle').trans hrely.1) heligible), rfl⟩
  · exact fun _ _ _ => rfl

theorem purgeGuests_safe (rows : List (Uin × Kind)) (s : State) :
    (outline cfg).Safe (.guestSweep limits later) (purgeGuests cfg later rows) [] s := by
  induction rows generalizing s with
  | nil => exact trivial
  | cons row rest ih =>
    refine wp_seq (purgeIfStillEligible_safe s) ?_
    rintro _ _ s' rfl
    exact ih s'

theorem guestSweep_safe (s : State) :
    (outline cfg).Safe (.guestSweep limits later) (guestSweep cfg limits later) [] s := by
  refine wp_bind.mpr (wp_look fun now s _ => wp_look fun seats s _ =>
    wp_look fun silent s _ => wp_look fun idle s _ => ?_)
  exact purgeGuests_safe _ s

theorem handler_safe (cfg : Config) (r : GuestRequest) (s : State) :
    (outline cfg).Safe r (guestHandler cfg r) [] s := by
  cases r with
  | register uin nickname resident => exact register_safe s
  | guestJoin uin nickname => exact guestJoin_safe s
  | addGuest uin nickname => exact addGuest_safe s
  | claimSeat uin => exact claimSeat_safe s
  | guestSettle uin gate resident => exact guestSettle_safe s
  | residencyRedeem uin refusal => exact residencyRedeem_safe s
  | convertGuest uin refusal resident => exact convertGuest_safe s
  | touchPoll uin due => exact touchPoll_safe s
  | onSocket uin => exact onSocket_safe s
  | ping uin => exact ping_safe s
  | setStatus uin => exact setStatus_safe s
  | guestSweep limits later => exact guestSweep_safe s
  | tick seconds =>
    intro s' _ hinv _
    have hle : s'.ext.now ≤ s'.ext.now + seconds := Int.le_add_of_nonneg_right (by omega)
    exact ⟨⟨fun uin row hrow => (hinv uin row hrow).later hle, hle, fun _ => .inl rfl⟩, trivial⟩

end GuestSweep

/-- **The guest sweep deletes guests that meet its condition**, in every interleaving of arrivals,
claims, settles, redeems, stamps, sockets and sweeps: the row that it deletes, which is locked since it
was looked at, has a guest status and meets the condition of the sweep that has picked it.  So no
account that has settled or redeemed is deleted, and no guest that was stamped after its mint is
deleted as never polled. -/
theorem guest_sweep_deletes_eligible {now : ℤ} {w w' : GuestWorld} {k : ℕ}
    {later : Uin → Limits} {l : Label} {uin : Uin}
    (hrun : World.Run (guestHandler cfg) (fun _ _ => True) (GuestWorld.initial now) w)
    (hsweep : w.upcoming k = some (.guestSweep limits later, l))
    (hstep : w.next (guestHandler cfg) (.step k) = some w')
    (hrow : w.shared.db.users.get uin = some row) (hgone : w'.shared.db.users.get uin = none) :
    ∃ kind t, l = .purge uin kind ∧ t ≤ w.shared.ext.now ∧
      eligible cfg (later uin) t row kind = true ∧ row.guestStatus ≠ none ∧ row.settled = false ∧
      (kind = .b → row.stamped = false) := by
  have hallow : ∀ (w : GuestWorld) a, True → (GuestSweep.outline cfg).Allows w a := fun w a _ =>
    allows_of_forall (fun _ _ => trivial) (fun _ _ _ => trivial) (fun _ _ _ _ => trivial) w a
  have hruns := World.Run.mono hallow hrun
  have hsafe := fun r s (_ : (GuestSweep.outline cfg).Inv s) (_ : True) =>
    GuestSweep.handler_safe cfg r s
  have hinit : (GuestSweep.outline cfg).Inv ⟨⟨∅, ∅⟩, ⟨now⟩, []⟩ := fun u r h => (by cases h)
  rcases step_of_run (GuestSweep.coherent cfg) hsafe hinit hruns (hallow w _ trivial) hstep with
    hsame | ⟨r, l', ws, hup, hinv, hdone⟩
  · rw [hsame, hrow] at hgone
    cases hgone
  · cases hsweep.symm.trans hup
    rcases hdone.guar.2 uin with hsame | ⟨-, hbecomes⟩
    · rw [hsame, hrow] at hgone
      cases hgone
    · rw [hgone] at hbecomes
      obtain ⟨_, _, kind, t, hreq, hl, ht, heligible⟩ := hbecomes
      cases hreq
      have hguest := guestStatus_of_eligible (heligible row hrow)
      have hdated := hinv uin row hrow
      refine ⟨kind, t, hl, ht, heligible row hrow, hguest, ?_, ?_⟩
      · exact Bool.eq_false_iff.mpr fun hsettled => hguest (hdated.settled hsettled)
      · rintro rfl
        exact stamped_of_eligible hdated (heligible row hrow)

/-- The settings as they come. -/
def defaults : Config := ⟨14, 30, 500, 500⟩

/-- The request is a guest sweep. -/
def GuestRequest.sweeps : GuestRequest → Bool
  | .guestSweep _ _ => true
  | _ => false

/-- Somebody joins as a guest, and nothing is heard of them for eight days. -/
def silentSchedule : List (Action GuestRequest) :=
  .start (GuestRequest.guestJoin 7 "guest".toList) :: steps 0 3 ++
    .start (GuestRequest.tick (8 * 86400)) :: steps 1 2 ++
    .start (GuestRequest.guestSweep ⟨7, 60⟩ fun _ => ⟨7, 60⟩) :: steps 2 8

theorem guest_sweep_deletes_silent_guest :
    let w := (GuestWorld.initial 0).play (guestHandler defaults) silentSchedule
    ∃ limits later l w' row, w.upcoming 2 = some (.guestSweep limits later, l) ∧
      w.next (guestHandler defaults) (.step 2) = some w' ∧
      w.shared.db.users.get 7 = some row ∧ w'.shared.db.users.get 7 = none ∧
      ∃ kind t, l = .purge 7 kind ∧ t ≤ w.shared.ext.now ∧
        eligible defaults (later 7) t row kind = true ∧ row.guestStatus ≠ none ∧
        row.settled = false ∧ (kind = .b → row.stamped = false) := by
  have hup : (((GuestWorld.initial 0).play (guestHandler defaults) silentSchedule).upcoming 2).any
      (fun x => x.1.sweeps) = true := by
    decide +kernel
  have hnext : (((GuestWorld.initial 0).play (guestHandler defaults) silentSchedule).next
      (guestHandler defaults) (.step 2)).any
      (fun w' => (w'.shared.db.users.get 7).isNone) = true := by
    decide +kernel
  have hrow : (((GuestWorld.initial 0).play (guestHandler defaults)
      silentSchedule).shared.db.users.get 7).isSome = true := by
    decide +kernel
  obtain ⟨⟨r, l⟩, hup, hsweeps⟩ := (any_eq_true _ _).mp hup
  obtain ⟨w', hnext, hgone⟩ := (any_eq_true _ _).mp hnext
  obtain ⟨row, hrow⟩ := isSome_iff_exists.mp hrow
  cases r with
  | guestSweep limits later =>
    have hgone : w'.shared.db.users.get 7 = none := isNone_iff_eq_none.mp hgone
    have hrun : World.Run (guestHandler defaults) (fun _ _ => True) (GuestWorld.initial 0)
        ((GuestWorld.initial 0).play (guestHandler defaults) silentSchedule) :=
      .of_play _ (by decide +kernel)
    exact ⟨limits, later, l, w', row, hup, hnext, hrow, hgone,
      guest_sweep_deletes_eligible defaults hrun hup hnext hrow hgone⟩
  | _ => cases hsweeps

end RcqServer.Sweeps
