import RcqServer.Gate.Owners

/-!
# A device that was revoked

The flag of a device row is never taken back: an upsert gives the row a new token and leaves the
flag.  What lets a revoked device in is the cache.  An entry that says that a token is not revoked
lives for `_CACHE_TTL` from when it is written, so it matters that no such entry is written after the
device was revoked: not by a check that has read the row before, and not by a redeem, which does not
look at the row's flag at all.
-/

namespace RcqServer.Gate.Revoked

open ReadCommitted Outline List Option Function World Shared

variable {s s' : State} {ws : List Write} {r : Request}

/-- Between a time and the revocations of a token's device there is no more than the life of a cache
entry. -/
def Before (e : Ext) (token : ℕ) (t : Time) : Prop :=
  ∀ dev invite, e.owners token = some (.device dev invite) →
    ∀ v ∈ e.revocations, v.dev = dev → t ≤ v.time + cacheTtl

structure Inv (s : State) : Prop where
  fresh : Fresh s.ext
  owned : Owned s.ext s.db
  revoked : ∀ v ∈ s.ext.revocations, v.time ≤ s.ext.now ∧
    ∃ row, s.db.devices.get v.dev = some row ∧ row.revoked
  cached : ∀ token x, s.ext.metas token = some x → (s.ext.owners token).isSome ∧
    ∃ y, x.expires = some y ∧ y ≤ s.ext.now + cacheTtl ∧
      (x.value.revoked = false → Before s.ext token y)
  admissions : ∀ a ∈ s.ext.admissions, a.started ≤ s.ext.now ∧ (s.ext.owners a.token).isSome ∧
    Before s.ext a.token a.started

/-- What every step leads to. -/
structure Later (s s' : State) : Prop where
  now_le : s.ext.now ≤ s'.ext.now
  owners : Keeps s.ext s'.ext
  revocations : ∀ v ∈ s'.ext.revocations, v ∈ s.ext.revocations ∨ s.ext.now ≤ v.time
  devices : ∀ dev, (s.db.devices.get dev).isSome → (s'.db.devices.get dev).isSome

theorem Later.refl (s : State) : Later s s :=
  ⟨le_rfl, fun _ _ h => h, fun _ h => .inl h, fun _ h => h⟩

theorem Later.trans {s'' : State} (h : Later s s') (h' : Later s' s'') : Later s s'' where
  now_le := h.now_le.trans h'.now_le
  owners := h.owners.trans h'.owners
  revocations v hv := by
    rcases h'.revocations v hv with hv | hlate
    · exact h.revocations v hv
    · exact .inr (h.now_le.trans hlate)
  devices dev hd := h'.devices dev (h.devices dev hd)

/-- The rows of devices that pending writes have locked. -/
def Locked (ws : List Write) (dev : Dev) : Prop := RowId.device dev ∈ lockedRows Db ws

/-- No entry that says that a token is not revoked is written into the cache when the row of the
token is revoked or gone. -/
def CachesInTime (s : State) : Label → Prop
  | .cache token m => m.revoked = false →
      (s.db.byHash token).any fun found => !found.meta.revoked
  | _ => True

def outline : Outline Db Ext Write Label Request where
  Inv := Inv
  Rely _ _ ws s s' := Later s s' ∧
    ∀ dev, Locked ws dev → s'.db.devices.get dev = s.db.devices.get dev
  Guar _ _ ws s s' := Later s s' ∧
    ∀ dev, ¬Locked ws dev → s'.db.devices.get dev = s.db.devices.get dev
  Start _ _ := True
  Cond _ l s := CachesInTime s l
  Apart _ _ _ _ := True

theorem coherent : outline.Coherent where
  rely_refl _ _ _ s := ⟨.refl s, fun _ _ => rfl⟩
  rely_trans _ _ _ _ _ _ h h' :=
    ⟨h.1.trans h'.1, fun dev hdev => (h'.2 dev hdev).trans (h.2 dev hdev)⟩
  guar_refl _ _ _ s := ⟨.refl s, fun _ _ => rfl⟩
  rely_of_guar _ _ _ _ _ _ _ _ _ hstep hlocks _ :=
    ⟨hstep.guar.1, fun dev hdev => hstep.guar.2 dev fun hlocked => hlocks _ hdev hlocked⟩

/-! ## Times and owners -/

variable {token invite : ℕ} {e : Ext} {dev : Dev} {m : Meta} {l : Label} {new : List Write}
  {started : Time}

/-- Others may revoke the device in the meantime, but that is later than the time. -/
theorem Before.later {t : Time} (h : Before s.ext token t)
    (howner : (s.ext.owners token).isSome) (ht : t ≤ s.ext.now + cacheTtl) (hlater : Later s s') :
    Before s'.ext token t := by
  intro dev invite ho v hv hdev
  obtain ⟨o, hold⟩ := isSome_iff_exists.mp howner
  have hsame : o = .device dev invite :=
    some.inj ((hlater.owners token o hold).symm.trans ho)
  rcases hlater.revocations v hv with hv | hlate
  · exact h dev invite (hsame ▸ hold) v hv hdev
  · exact ht.trans (Nat.add_le_add_right hlate _)

/-- The entry of a token whose row is not revoked may live as long as it likes. -/
theorem Inv.before_of_byHash (hinv : Inv s) {found : Found}
    (hfound : s.db.byHash token = some found) (hrevoked : found.meta.revoked = false) (t : Time) :
    Before s.ext token t := by
  intro dev invite ho v hv hdev
  rcases hinv.owned.byHash hfound with ⟨id, row, rfl, -, hoperator⟩ | ⟨d, row, i, rfl, hrow, hown⟩
  · cases hoperator.symm.trans ho
  · obtain ⟨rfl, -⟩ := Owner.device.inj (some.inj (hown.symm.trans ho))
    obtain ⟨-, row', hrow', hset⟩ := hinv.revoked v hv
    rw [hdev, hrow, some.injEq] at hrow'
    subst hrow'
    exact absurd (hrevoked.symm.trans hset) Bool.false_ne_true

/-! ## Effects -/

/-- An effect that adds nothing to the cache, to the revocations and to the admissions. -/
structure Mild (e e' : Ext) : Prop where
  now_le : e.now ≤ e'.now
  owners : Keeps e e'
  fresh : Fresh e → Fresh e'
  revocations : e'.revocations = e.revocations
  metas : ∀ token x, e'.metas token = some x → e.metas token = some x
  admissions : e'.admissions = e.admissions

theorem Mild.refl (e : Ext) : Mild e e :=
  ⟨le_rfl, fun _ _ h => h, id, rfl, fun _ _ h => h, rfl⟩

theorem Mild.later (h : Mild s.ext e) : Later s (s.tell e) :=
  ⟨h.now_le, h.owners, fun _ hv => .inl (h.revocations ▸ hv), fun _ hd => hd⟩

theorem Inv.mild (hinv : Inv s) (h : Mild s.ext e) : Inv (s.tell e) := by
  refine ⟨h.fresh hinv.fresh, hinv.owned.keeps h.owners, ?_, ?_, ?_⟩
  · intro v hv
    obtain ⟨htime, hrow⟩ := hinv.revoked v (h.revocations ▸ hv)
    exact ⟨htime.trans h.now_le, hrow⟩
  · intro token x hx
    obtain ⟨howner, y, hy, hle, hbefore⟩ := hinv.cached token x (h.metas token x hx)
    exact ⟨h.owners.isSome howner, y, hy, hle.trans (Nat.add_le_add_right h.now_le _),
      fun hr => (hbefore hr).later howner hle h.later⟩
  · intro a ha
    obtain ⟨hstart, howner, hbefore⟩ := hinv.admissions a (h.admissions ▸ ha)
    exact ⟨hstart.trans h.now_le, h.owners.isSome howner,
      hbefore.later howner (hstart.trans (Nat.le_add_right _ _)) h.later⟩

/-- A statement with a mild effect. -/
theorem step_mild (hinv : Inv s) (h : Mild s.ext e) : outline.Step r l ws s (s.tell e) :=
  ⟨hinv.mild h, h.later, fun _ _ => rfl⟩

theorem mild_draw (hfresh : Fresh e) (owner : Owner) : Mild e (e.draw owner) :=
  ⟨le_rfl, hfresh.keeps_draw owner, fun h => h.draw owner, rfl, fun _ _ h => h, rfl⟩

/-! ## Commits -/

/-- The pending writes have the tokens of their owners and take no flag back. -/
structure Pending (ws : List Write) (s : State) : Prop where
  owned : ∀ w ∈ ws, w.Owned s.ext
  flags : ∀ dev row', Write.device dev (some row') ∈ ws → ∀ row, s.db.devices.get dev = some row →
    row.revoked → row'.revoked

theorem Pending.rely {l : Option Label} (h : Pending ws s) (hrely : outline.Rely r l ws s s') :
    Pending ws s' := by
  refine ⟨fun w hw => (h.owned w hw).keeps hrely.1.owners, fun dev row' hmem row hrow => ?_⟩
  have hlocked : Locked ws dev := mem_map.mpr ⟨_, hmem, rfl⟩
  rw [hrely.2 dev hlocked] at hrow
  exact h.flags dev row' hmem row hrow

theorem Pending.append (h : Pending ws s) (hnew : Pending new s) : Pending (ws ++ new) s := by
  constructor
  · intro w hw
    exact (mem_append.mp hw).elim (h.owned w) (hnew.owned w)
  · intro dev row' hmem
    exact (mem_append.mp hmem).elim (h.flags dev row') (hnew.flags dev row')

/-- The row of a device after a commit. -/
theorem Pending.device (h : Pending ws s) (dev : Dev) :
    (s.view ws).devices.get dev = s.db.devices.get dev ∨
      ∃ row', Write.device dev (some row') ∈ ws ∧ (s.view ws).devices.get dev = some row' := by
  refine (sets_devices.get_applyAll ws s.db dev).imp id fun hmem => ?_
  obtain ⟨row', hrow', -⟩ := h.owned _ hmem
  have hview : (s.view ws).devices.get dev = some row' := hrow'
  exact ⟨row', hrow' ▸ hmem, hview⟩

theorem Pending.later (h : Pending ws s) (hlater : Later s (s.tell e)) :
    Later s (s.commit ws e) := by
  refine ⟨hlater.now_le, hlater.owners, hlater.revocations, fun dev hdev => ?_⟩
  rw [commit_db]
  rcases h.device dev with hsame | ⟨row', -, hview⟩
  · rwa [hsame]
  · rw [hview]
    rfl

/-- A commit together with an effect after which the invariant would hold of the rows before. -/
theorem Inv.commit (h : Pending ws s) (hinv : Inv (s.tell e))
    (hlater : Later s (s.tell e)) : Inv (s.commit ws e) := by
  refine ⟨hinv.fresh, hinv.owned.applyAll fun w hw => (h.owned w hw).keeps hlater.owners, ?_,
    hinv.cached, hinv.admissions⟩
  intro v hv
  obtain ⟨htime, row, hrow, hset⟩ := hinv.revoked v hv
  refine ⟨htime, ?_⟩
  rw [commit_db]
  rcases h.device v.dev with hsame | ⟨row', hmem, hview⟩
  · exact ⟨row, hsame.trans hrow, hset⟩
  · exact ⟨row', hview, h.flags _ row' hmem row hrow hset⟩

theorem guar_commit (h : Pending ws s) (hlater : Later s (s.tell e)) :
    outline.Guar r l ws s (s.commit ws e) := by
  refine ⟨h.later hlater, fun dev hdev => ?_⟩
  rw [commit_db]
  exact sets_devices.get_applyAll_of_notMem (fun v hmem => hdev (mem_map.mpr ⟨_, hmem, rfl⟩)) _

theorem step_commit (h : Pending ws s) (hinv : Inv s) (he : Mild s.ext e) :
    outline.Step r l ws s (s.commit ws e) :=
  ⟨(hinv.mild he).commit h he.later, guar_commit h he.later⟩

/-- The operator's revocation of a device. -/
theorem step_revoke (h : Pending ws s) (hinv : Inv s)
    (hmem : ∃ row', Write.device dev (some row') ∈ ws)
    (hset : ∀ row', Write.device dev (some row') ∈ ws → row'.revoked) :
    outline.Step r (.commitRevoke (.device dev)) ws s
      (s.commit ws { s.ext with revocations := ⟨dev, s.ext.now⟩ :: s.ext.revocations }) := by
  have htell : Later s (s.tell { s.ext with
      revocations := ⟨dev, s.ext.now⟩ :: s.ext.revocations }) := by
    refine ⟨le_rfl, fun _ _ h => h, fun v hv => ?_, fun _ hd => hd⟩
    rcases mem_cons.mp hv with rfl | hv
    · exact .inr le_rfl
    · exact .inl hv
  have hlater := h.later htell
  have hplain : Inv (s.commit ws s.ext) := hinv.commit h (.refl s)
  refine ⟨⟨hinv.fresh, hplain.owned.keeps fun _ _ h => h, ?_, ?_, ?_⟩, guar_commit h htell⟩
  · intro v hv
    rcases mem_cons.mp hv with rfl | hv
    · obtain ⟨row', hrow'⟩ := hmem
      obtain ⟨row, hrow, -⟩ := h.owned _ (sets_devices.get_applyAll_of_mem hrow' s.db)
      refine ⟨le_rfl, row, hrow, hset row ?_⟩
      exact hrow ▸ sets_devices.get_applyAll_of_mem hrow' s.db
    · exact hplain.revoked v hv
  · intro token x hx
    obtain ⟨howner, y, hy, hle, hbefore⟩ := hinv.cached token x hx
    exact ⟨howner, y, hy, hle, fun hr => (hbefore hr).later howner hle hlater⟩
  · intro a ha
    obtain ⟨hstart, howner, hbefore⟩ := hinv.admissions a ha
    exact ⟨hstart, howner, hbefore.later howner (hstart.trans (Nat.le_add_right _ _)) hlater⟩

/-! ## Rules -/

theorem wp_draw (owner : Owner) :
    outline.wp r (draw owner) (fun out ws s => ws = [] ∧ s.ext.owners out.1 = some owner) [] s := by
  intro s' _ hinv _
  exact ⟨step_mild hinv (mild_draw hinv.fresh owner), rfl, owners_draw _ owner⟩

theorem Inv.cache (hinv : Inv s) (howner : (s.ext.owners token).isSome)
    (hcond : CachesInTime s (.cache token m)) : Inv (s.tell (s.ext.cache token m)) := by
  refine ⟨hinv.fresh, hinv.owned.keeps fun _ _ h => h, hinv.revoked, ?_, hinv.admissions⟩
  intro token' x hx
  by_cases htoken : token' = token
  · subst htoken
    have hx : update s.ext.metas token' (some ⟨m, some (s.ext.now + cacheTtl)⟩) token' =
        some x := hx
    rw [update_self, some.injEq] at hx
    subst hx
    refine ⟨howner, _, rfl, le_rfl, fun hrevoked => ?_⟩
    obtain ⟨found, hfound, hactive⟩ := (any_eq_true _ _).mp (hcond hrevoked)
    exact hinv.before_of_byHash hfound (by simpa using hactive) _
  · refine hinv.cached token' x ?_
    rw [← hx]
    exact (update_of_ne htoken _ _).symm

theorem wp_cache {down : Bool} (howner : (s.ext.owners token).isSome) :
    outline.wp r (Gate.cache down token m) (fun _ ws _ => ws = []) [] s := by
  unfold Gate.cache Prog.onlyIf
  split
  · refine wp_effect fun s' hrely hinv hcond => ⟨?_, rfl⟩
    exact ⟨hinv.cache (hrely.1.owners.isSome howner) hcond,
      ⟨le_rfl, fun _ _ h => h, fun _ h => .inl h, fun _ h => h⟩, fun _ _ => rfl⟩
  · exact rfl

/-- What a check may conclude from the metadata that it has. -/
structure Judged (token : ℕ) (m : Meta) (started : Time) (s : State) : Prop where
  started_le : started ≤ s.ext.now
  owner : (s.ext.owners token).isSome
  before : m.revoked = false → Before s.ext token started

theorem Judged.later (h : Judged token m started s)
    (hlater : Later s s') : Judged token m started s' := by
  refine ⟨h.started_le.trans hlater.now_le, hlater.owners.isSome h.owner, fun hr => ?_⟩
  exact (h.before hr).later h.owner (h.started_le.trans (Nat.le_add_right _ _)) hlater

theorem Inv.judged_cached (hinv : Inv s)
    (hread : Expiring.read s.ext.now (s.ext.metas token) = some m) :
    Judged token m s.ext.now s := by
  obtain ⟨x, hfind, rfl⟩ := map_eq_some_iff.mp hread
  obtain ⟨howner, y, hy, -, hbefore⟩ := hinv.cached token x (filter_eq_some_iff.mp hfind).1
  have halive : s.ext.now < y := by
    have halive := Expiring.alive_of_find hfind
    rw [Expiring.Entry.alive, hy] at halive
    exact of_decide_eq_true halive
  refine ⟨le_rfl, howner, fun hr dev invite ho v hv hdev => ?_⟩
  exact halive.le.trans (hbefore hr dev invite ho v hv hdev)

theorem Inv.judged_row (hinv : Inv s) {found : Found}
    (hle : started ≤ s.ext.now) (hfound : s.db.byHash token = some found) :
    Judged token found.meta started s := by
  refine ⟨hle, ?_, fun hr => hinv.before_of_byHash hfound hr _⟩
  rcases hinv.owned.byHash hfound with ⟨_, _, -, -, ho⟩ | ⟨_, _, _, -, -, ho⟩
  · rw [ho]
    rfl
  · rw [ho]
    rfl

theorem wp_metaOf (token : ℕ) (down : Bool) : outline.wp r (metaOf token down)
      (fun out ws s => ws = [] ∧ ∀ m ∈ out.1, Judged token m out.2 s) [] s := by
  refine wp_read_bind coherent fun s₁ _ hinv₁ _ => ?_
  dsimp only
  split
  · rename_i m hm
    refine ⟨rfl, fun m' hm' => some.inj hm' ▸ hinv₁.judged_cached ?_⟩
    split at hm
    · cases hm
    · exact hm
  · refine wp_read_bind coherent fun s₂ hrely hinv₂ _ => ?_
    split
    · exact ⟨rfl, nofun⟩
    · rename_i found hfound
      have hjudged := hinv₂.judged_row hrely.1.now_le hfound
      refine wp_seq (wp_and_stable (O := outline) (r := r)
        (K := Judged token found.meta s₁.ext.now) (fun _ _ _ _ hK hrely _ => hK.later hrely.1)
        (fun _ _ _ _ hK hstep => hK.later hstep.guar.1) (wp_cache hjudged.owner) hjudged) ?_
      rintro - ws s ⟨rfl, hK⟩
      exact ⟨rfl, fun m hm => some.inj hm ▸ hK⟩

theorem wp_judge (h : Judged token m started s) : outline.Safe r (judge token m started) [] s := by
  intro s' hrely hinv _
  refine ⟨?_, trivial⟩
  have hj := h.later hrely.1
  dsimp only
  split
  · rename_i hactive
    have hrevoked : m.revoked = false := by
      simp only [Meta.active, Bool.and_eq_true, Bool.not_eq_true'] at hactive
      exact hactive.1.1
    refine ⟨⟨hinv.fresh, hinv.owned.keeps fun _ _ h => h, hinv.revoked, hinv.cached, ?_⟩,
      ⟨le_rfl, fun _ _ h => h, fun _ h => .inl h, fun _ h => h⟩, fun _ _ => rfl⟩
    exact forall_mem_cons.mpr ⟨⟨hj.started_le, hj.owner, hj.before hrevoked⟩, hinv.admissions⟩
  · exact step_mild hinv (.refl _)

theorem gateCheck_safe (auth : Option Credential) (down : Bool) :
    outline.Safe r (gateCheck auth down) [] s := by
  unfold gateCheck
  split
  · exact trivial
  · exact trivial
  · refine wp_seq (wp_metaOf _ down) ?_
    rintro ⟨found, started⟩ ws s ⟨rfl, hjudged⟩
    cases found with
    | none => exact trivial
    | some m => exact wp_judge (hjudged m rfl)

/-! ## Requests -/

theorem owner_later {o : Owner} (h : s.ext.owners token = some o)
    (hlater : Later s s') : s'.ext.owners token = some o :=
  hlater.owners token o h

theorem pending_upsert (ho : s.ext.owners token = some (.device dev invite)) :
    Pending [.device dev (some (s.db.upserted dev invite token))] s := by
  constructor
  · exact forall_mem_singleton.mpr (upserted_owned ho)
  · intro dev' row' hmem row hrow hset
    obtain ⟨rfl, hrow'⟩ := Write.device.inj (mem_singleton.mp hmem)
    obtain rfl := some.inj hrow'
    unfold Db.upserted
    rw [hrow]
    exact hset

/-- Writes to the rows of the operator alone. -/
theorem pending_issued (howned : ∀ w ∈ new, w.Owned s.ext)
    (hnew : ∀ dev row, Write.device dev row ∉ new) : Pending new s :=
  ⟨howned, fun _ _ hmem => absurd hmem (hnew _ _)⟩

/-- Writes that set the flag. -/
theorem pending_flags (howned : ∀ w ∈ new, w.Owned s.ext)
    (hset : ∀ dev row', Write.device dev (some row') ∈ new → row'.revoked) : Pending new s :=
  ⟨howned, fun dev row' hmem _ _ _ => hset dev row' hmem⟩

theorem device_notMem_consumes (db : Db) (invite token : ℕ) (now : Time) (dev : Dev)
    (row : Option Device) : Write.device dev row ∉ db.consumes invite token now := by
  unfold Db.consumes
  split
  · split
    · simp
    · simp
  · simp

theorem revoked_of_mem_revokes {db : Db} (target : RowId) {row' : Device}
    (h : Write.device dev (some row') ∈ db.revokes target) : row'.revoked := by
  cases target with
  | issued id =>
    simp only [Db.revokes] at h
    split at h
    · simp at h
    · simp at h
  | device d =>
    simp only [Db.revokes] at h
    split at h
    · obtain ⟨-, hrow⟩ := Write.device.inj (mem_singleton.mp h)
      obtain rfl := some.inj hrow
      rfl
    · simp at h

theorem revoked_of_mem_revokesChildren {db : Db} {row' : Device}
    (h : Write.device dev (some row') ∈ db.revokesChildren invite) : row'.revoked := by
  obtain ⟨r, -, heq⟩ := mem_map.mp h
  obtain ⟨-, hrow⟩ := Write.device.inj heq
  obtain rfl := some.inj hrow
  rfl

theorem finish_safe {down : Bool} (h : Pending ws s)
    (ho : s.ext.owners token = some (.device dev invite)) :
    outline.Safe r (finish dev invite token down) ws s := by
  refine wp_seq (Q := fun _ ws s => ws = [] ∧ s.ext.owners token = some (.device dev invite))
    (wp_commit fun s' hrely hinv _ => ?_) ?_
  · have hmild : Mild s'.ext { s'.ext with admitted := (dev, invite) :: s'.ext.admitted } :=
      ⟨le_rfl, fun _ _ h => h, id, rfl, fun _ _ h => h, rfl⟩
    have ho' := owner_later ho hrely.1
    exact ⟨step_commit (h.rely hrely) hinv hmild, rfl, ho'⟩
  · rintro - ws s ⟨rfl, ho⟩
    exact wp_seq (wp_cache (isSome_iff_exists.mpr ⟨_, ho⟩)) fun _ _ _ _ => trivial

theorem mint_safe (dev : Dev) (invite presented : ℕ) (down : Bool) :
    outline.Safe r (mint dev invite presented down) [] s := by
  refine wp_seq (wp_draw (.device dev invite)) ?_
  rintro ⟨token, now⟩ ws s ⟨rfl, ho⟩
  refine wp_write_bind coherent fun s₁ hrely₁ _ _ => ?_
  have ho₁ := owner_later ho hrely₁.1
  have hp := pending_upsert ho₁
  split
  · refine wp_write_bind coherent fun s₂ hrely₂ hinv _ => ?_
    have hp' := hp.rely hrely₂
    have hnew := pending_issued (consumes_owned (hinv.owned.applyAll hp'.owned) invite presented now)
      (device_notMem_consumes _ _ _ _)
    split
    · exact finish_safe (hp'.append hnew) (owner_later ho₁ hrely₂.1)
    · exact fun _ _ _ => trivial
  · exact finish_safe hp ho₁

theorem evict_safe (tokens : List ℕ) (down : Bool) : outline.Safe r (evict tokens down) [] s := by
  unfold evict Prog.onlyIf
  split
  · refine wp_effect fun s' _ hinv _ => ⟨step_mild hinv ?_, trivial⟩
    refine ⟨le_rfl, fun _ _ h => h, id, rfl, fun token x hx => ?_, rfl⟩
    dsimp only at hx
    split at hx
    · cases hx
    · exact hx
  · exact trivial

/-- A revocation writes rows of their owners, all of them with the flag. -/
theorem wp_revokeRow (target : RowId) :
    outline.wp r (revokeRow target) (fun _ ws s => Pending ws s ∧
      ∀ dev row', Write.device dev (some row') ∈ ws → row'.revoked) [] s := by
  refine wp_write coherent fun s' _ hinv _ => ⟨?_, ?_⟩
  · exact pending_flags (revokes_owned hinv.owned target) fun _ _ => revoked_of_mem_revokes target
  · exact fun _ _ => revoked_of_mem_revokes target

theorem commitRevoke_issued_safe {id : ℕ} (h : Pending ws s) :
    outline.wp r (commitRevoke (.issued id)) (fun _ ws _ => ws = []) ws s :=
  wp_commit fun _ hrely hinv _ => ⟨step_commit (h.rely hrely) hinv (.refl _), rfl⟩

/-- The row of a device that was there stays, so its revocation writes it. -/
theorem revokeDevice_safe (dev : Dev) (down : Bool) :
    outline.Safe r (adminRevokeToken (.device dev) down) [] s := by
  refine wp_read_bind coherent fun s₁ _ _ _ => ?_
  split
  · exact trivial
  · rename_i row hrow
    refine wp_write_bind coherent fun s₂ hrely₂ hinv₂ _ => wp_commit fun s₃ hrely₃ hinv₃ _ => ⟨?_, ?_⟩
    · have hp := pending_flags (revokes_owned hinv₂.owned (.device dev)) fun _ _ =>
        revoked_of_mem_revokes (.device dev)
      obtain ⟨old, hold⟩ := isSome_iff_exists.mp
        (hrely₂.1.devices dev (isSome_iff_exists.mpr ⟨row, hrow⟩))
      refine step_revoke (hp.rely hrely₃) hinv₃ ⟨{ old with revoked := true }, ?_⟩
        fun _ => revoked_of_mem_revokes (.device dev)
      simp [Db.revokes, hold]
    · change outline.Safe r ((evict [row.tokenHash] down).bind _) [] _
      exact wp_seq (evict_safe _ _) fun _ _ _ _ => trivial

theorem revokeIssued_safe (id : ℕ) (down : Bool) :
    outline.Safe r (adminRevokeToken (.issued id) down) [] s := by
  refine wp_read_bind coherent fun s₁ _ _ _ => ?_
  split
  · exact trivial
  · refine wp_seq (wp_revokeRow (.issued id)) ?_
    rintro - ws s ⟨hp, -⟩
    split
    · refine wp_read_bind coherent fun s₂ hrely₂ _ _ => ?_
      refine wp_write_bind coherent fun s₃ hrely₃ hinv _ => ?_
      have hp' := (hp.rely hrely₂).rely hrely₃
      have hview := hinv.owned.applyAll hp'.owned
      refine wp_seq (commitRevoke_issued_safe (hp'.append (pending_flags
        (revokesChildren_owned hview id) fun _ _ => revoked_of_mem_revokesChildren))) ?_
      rintro - ws s rfl
      exact wp_seq (evict_safe _ _) fun _ _ _ _ => trivial
    · refine wp_seq (commitRevoke_issued_safe hp) ?_
      rintro - ws s rfl
      exact wp_seq (evict_safe _ _) fun _ _ _ _ => trivial

theorem adminCreateToken_safe (kind : Kind) (maxUses : Option ℕ) (expiresInDays : Option ℕ) :
    outline.Safe r (adminCreateToken kind maxUses expiresInDays) [] s := by
  refine wp_seq (wp_draw .operator) ?_
  rintro ⟨token, now⟩ ws s ⟨rfl, ho⟩
  intro s' hrely hinv _
  have hmild : Mild s'.ext { s'.ext with nextId := s'.ext.nextId + 1 } :=
    ⟨le_rfl, fun _ _ h => h, id, rfl, fun _ _ h => h, rfl⟩
  refine ⟨step_mild hinv hmild, ?_⟩
  have ho' := owner_later ho hrely.1
  refine wp_commit fun s'' hrely' hinv' _ => ?_
  refine ⟨step_commit (Pending.rely ?_ hrely') hinv' (.refl _), trivial⟩
  exact pending_issued (forall_mem_singleton.mpr ⟨_, rfl, ho'⟩) fun dev row => by simp

theorem handler_safe (r : Request) (s : State) : outline.Safe r (handler r) [] s := by
  cases r with
  | check auth down => exact safe_map (gateCheck_safe auth down) _
  | redeem dev auth down => exact safe_map (gateRedeem_safe coherent mint_safe dev auth down) _
  | revoke target down =>
    cases target with
    | device dev => exact safe_map (revokeDevice_safe dev down) _
    | issued id => exact safe_map (revokeIssued_safe id down) _
  | create kind maxUses expiresInDays =>
    exact wp_seq (adminCreateToken_safe kind maxUses expiresInDays) fun _ _ _ _ => trivial
  | tick seconds =>
    refine wp_seq (Q := fun _ _ _ => True) (wp_effect fun s' _ hinv _ => ?_) fun _ _ _ _ => trivial
    exact ⟨step_mild hinv ⟨Nat.le_add_right _ _, fun _ _ h => h, id, rfl, fun _ _ h => h, rfl⟩,
      trivial⟩

end RcqServer.Gate.Revoked

namespace RcqServer.Gate

open ReadCommitted Outline List Option Function World Shared

/-! ## Runs -/

/-- Nothing is written into the cache that says that a token is not revoked when the row of the token
is revoked or gone. -/
def CachesInTime (w : World) : Action Request → Prop
  | .step n => ∀ x ∈ w.upcoming n, Revoked.CachesInTime w.shared x.2
  | _ => True

/-- **A revoked device stays out.**  In every run of checks, redeems, revocations and creations of
tokens, however their statements interleave, in which nothing is written into the cache that says
that a token is not revoked when the row of the token is revoked or gone: no check that looks into the
cache more than `_CACHE_TTL` after the operator has revoked a device lets in a token that was ever
drawn for the device. -/
theorem revoked_phone_stays_out {now : Time} {w : World}
    (hrun : Run handler CachesInTime (initial now) w) {a : Admission} {dev : Dev}
    {invite : ℕ} {v : Revocation} (ha : a ∈ w.shared.ext.admissions)
    (hdrawn : w.shared.ext.owners a.token = some (.device dev invite))
    (hv : v ∈ w.shared.ext.revocations) (hdev : v.dev = dev) : a.started ≤ v.time + cacheTtl := by
  have hinit : Revoked.Inv (initial now).shared := by
    refine ⟨fun _ _ => rfl, ⟨nofun, nofun⟩, ?_,
      nofun, ?_⟩
    · exact nofun
    · exact nofun
  have hallows : ∀ (w : World) x, CachesInTime w x → Revoked.outline.Allows w x :=
    allows_of_upcoming (fun _ _ => trivial) (fun _ _ _ _ => trivial) fun _ _ h => h
  have hinv : Revoked.Inv w.shared := inv_of_run Revoked.coherent
    (fun r s _ _ => Revoked.handler_safe r s) hinit (Run.mono hallows hrun)
  exact (hinv.admissions a ha).2.2 dev invite hdrawn v hv hdev

section Example

instance : DecidableRel Revoked.CachesInTime := by
  rintro s (_ | _) <;> unfold Revoked.CachesInTime <;> infer_instance

instance : DecidableRel CachesInTime := by
  rintro w (_ | _) <;> unfold CachesInTime <;> infer_instance

/-- A device. -/
def someDevice : Dev := "0123456789abcdef".toList

/-- An invite with the token 0 is redeemed for the token 1, which passes the gate; ten seconds later
the operator revokes the device. -/
def redeemThenRevoke : List (Action Request) :=
  .start (Request.create .invite none none) :: steps 0 4 ++
    .start (Request.redeem someDevice (some (.token 0)) false) :: steps 1 7 ++
    .start (Request.check (some (.token 1)) false) :: steps 2 3 ++ .start (Request.tick 10) :: steps 3 2 ++
    .start (Request.revoke (.device someDevice) false) :: steps 4 5

/-- Two minutes later the token is presented again. -/
def presentedAgain : List (Action Request) :=
  redeemThenRevoke ++ .start (Request.tick 120) :: steps 5 2 ++
    .start (Request.check (some (.token 1)) false) :: steps 6 5

theorem revoked_phone_stays_out_later :
    ((initial 0).play handler presentedAgain).answer? 2 = some (.check true) ∧
      ((initial 0).play handler presentedAgain).answer? 6 = some (.check false) ∧
      (0 : Time) ≤ 10 + cacheTtl := by
  have hrun : Run handler CachesInTime (initial 0)
      ((initial 0).play handler presentedAgain) := .of_play presentedAgain (by decide +kernel)
  have ha : (⟨1, 0⟩ : Admission) ∈
      ((initial 0).play handler presentedAgain).shared.ext.admissions := by decide +kernel
  have hdrawn : ((initial 0).play handler presentedAgain).shared.ext.owners
      (⟨1, 0⟩ : Admission).token = some (.device someDevice 0) := by decide +kernel
  have hv : (⟨someDevice, 10⟩ : Revocation) ∈
      ((initial 0).play handler presentedAgain).shared.ext.revocations := by decide +kernel
  have hle : (⟨1, 0⟩ : Admission).started ≤ (⟨someDevice, 10⟩ : Revocation).time + cacheTtl :=
    revoked_phone_stays_out hrun ha hdrawn hv rfl
  exact ⟨by decide +kernel, by decide +kernel, hle⟩

/-- Two minutes later the device redeems another invite. -/
def redeemedAgain : List (Action Request) :=
  redeemThenRevoke ++ .start (Request.tick 120) :: steps 5 2 ++
    .start (Request.create .invite none none) :: steps 6 4 ++
    .start (Request.redeem someDevice (some (.token 2)) false) :: steps 7 6 ++
    .start (Request.check (some (.token 3)) false) :: steps 8 3

/-- The row keeps its flag, the cache says that the new token is not revoked, and the token passes the
gate. -/
theorem revoked_device_redeems_again :
    let w := (initial 0).play handler redeemedAgain
    Run handler (fun _ _ => True) (initial 0) w ∧
      w.answer? 8 = some (.check true) ∧ ⟨3, 130⟩ ∈ w.shared.ext.admissions ∧
      w.shared.ext.owners 3 = some (.device someDevice 1) ∧
      ⟨someDevice, 10⟩ ∈ w.shared.ext.revocations ∧
      (w.shared.db.issued.get 1).any (fun row => !row.revoked) ∧ ¬(130 ≤ 10 + cacheTtl) :=
  ⟨.of_play redeemedAgain (by decide +kernel), by decide +kernel⟩

end Example

end RcqServer.Gate
