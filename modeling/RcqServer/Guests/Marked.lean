import RcqServer.Guests.Footprint

/-!
# Guests are known to the mirror

A rebuild reads the table and replaces the set later.  A guest who was committed in between is not in
what it has read; his mark is among the pending ones, for two minutes from the mark.  So it is enough
that a mint commits within `M` seconds of its mark and a rebuild replaces the set within `R` seconds of
its read, where `M + R` is at most the life of a pending mark.
-/

namespace RcqServer.Guests

open ReadCommitted Prog Outline List Option World Shared Expiring Bool

/-- The database does not fail to commit a mint of this request. -/
def Request.mintCommits : Request → Bool
  | .guestJoin _ env => !env.commitFails
  | .addGuest _ _ env => !env.commitFails
  | _ => true

/-- No purged number is minted again, and mints and rebuilds take their time and no more. -/
def Label.inTime (M R : Time) (e : Ext) : Label → Bool
  | .insertUser uin => !e.purged.contains uin
  | .commitMint markedAt _ => e.now < markedAt + M
  | .replace _ readAt => e.now < readAt + R
  | _ => true

namespace Marked

variable {M R : Time} {r : Request} {l : Label} {ws : List Write} {s s' : State} {u : Uin}
  {α β : Type}

/-! ## The outline -/

structure Inv (s : State) : Prop where
  marked : s.ext.built → ∀ u, s.db.guest u → u ∈ s.ext.guests
  loaded : s.ext.loaded.isSome → s.ext.built
  /-- Whoever was settled is there and native, unless he was purged. -/
  retired : ∀ u ∈ s.ext.retired, u ∈ s.ext.purged ∨ (s.db.users.get u).isSome
  native : ∀ u ∈ s.ext.retired, s.db.guest u = false
  purged : ∀ u ∈ s.ext.purged, s.db.users.get u = none
  reports : ∀ x ∈ s.ext.reports, x.guest = false

/-- The number is among the pending marks, and will be until `t`. -/
def Kept (u : Uin) (t : Time) (e : Ext) : Prop := Keeps (u ∈ ·) t e.pending

/-- A mint has marked its number. -/
def Mark (u : Uin) (markedAt : Time) (e : Ext) : Prop :=
  markedAt ≤ e.now ∧
    (e.now < markedAt + pendingTtl → u ∈ e.guests ∧ Kept u (markedAt + pendingTtl) e)

/-- Every guest is among the rows that a rebuild has read, or will be among the pending marks. -/
def Covered (R : Time) (rows : List Uin) (readAt : Time) (s : State) : Prop :=
  readAt ≤ s.ext.now ∧
    (s.ext.now < readAt + R → ∀ u, s.db.guest u → u ∈ rows ∨ Kept u (readAt + R) s.ext)

structure Guar (M : Time) (ws : List Write) (s s' : State) : Prop where
  later : s.ext.now ≤ s'.ext.now
  built : s.ext.built → s'.ext.built
  rows : ∀ u, u ∉ ws.map Write.uin → s'.db.users.get u = s.db.users.get u
  purged : ∀ u ∈ s'.ext.purged, u ∈ s.ext.purged ∨ u ∈ ws.map Write.uin
  retired : s.ext.retired ⊆ s'.ext.retired
  pending : ∀ u t, s'.ext.now < t → t ≤ s.ext.now + pendingTtl → Kept u t s.ext →
    Kept u t s'.ext ∨ u ∈ s.ext.retired
  guests : ∀ u t, s'.ext.now < t → Kept u t s.ext → u ∈ s.ext.guests →
    u ∈ s'.ext.guests ∨ u ∈ s.ext.retired
  /-- A new guest was marked a short time ago. -/
  fresh : ∀ u, s'.db.guest u → s.db.guest u ∨
    ∃ m, s'.ext.now < m + M ∧ Kept u (m + pendingTtl) s'.ext

structure Rely (R : Time) (l : Option Label) (ws : List Write) (s s' : State) : Prop where
  later : s.ext.now ≤ s'.ext.now
  built : s.ext.built → s'.ext.built
  retired : s.ext.retired ⊆ s'.ext.retired
  rows : ∀ u ∈ ws.map Write.uin, s'.db.users.get u = s.db.users.get u
  purged : ∀ u ∈ ws.map Write.uin, u ∈ s'.ext.purged → u ∈ s.ext.purged
  mark : ∀ u ∈ ws.map Write.uin, ∀ m, s.db.users.get u = none → u ∉ s.ext.purged →
    Mark u m s.ext → Mark u m s'.ext
  covered : ∀ rows t, l = some (.replace rows t) → Covered R rows t s → Covered R rows t s'

def outline (M R : Time) : Outline Db Ext Write Label Request where
  Inv := Inv
  Rely _ := Rely R
  Guar _ _ := Guar M
  Start _ _ := True
  Cond r l s := r.mintCommits ∧ l.inTime M R s.ext
  Apart _ _ _ _ := True

theorem guar_refl (s : State) : Guar M ws s s where
  later := le_rfl
  built := id
  rows _ _ := rfl
  purged _ := .inl
  retired := Subset.refl _
  pending _ _ _ _ := .inl
  guests _ _ _ _ := .inl
  fresh _ := .inl

variable {m t : Time} {e : Ext} {row : User}

/-- What is locked is neither settled nor purged by others, so its mark stays. -/
theorem mark_of_guar (hinv : Inv s) (hguar : Guar M ws s s')
    (hnone : s.db.users.get u = none) (hpurged : u ∉ s.ext.purged) (hmark : Mark u m s.ext) :
    Mark u m s'.ext := by
  have hretired : u ∉ s.ext.retired := by
    intro hmem
    rcases hinv.retired u hmem with h | h
    · exact hpurged h
    · rw [hnone] at h
      cases h
  have hm : m ≤ s.ext.now := hmark.1
  have hlater := hguar.later
  refine ⟨Nat.le_trans hm hlater, fun hnow => ?_⟩
  obtain ⟨hguests, hkept⟩ := hmark.2 (Nat.lt_of_le_of_lt hlater hnow)
  exact ⟨(hguar.guests u _ hnow hkept hguests).resolve_right hretired,
    (hguar.pending u _ hnow (Nat.add_le_add_right hm _) hkept).resolve_right hretired⟩

theorem covered_of_guar (hMR : M + R ≤ pendingTtl) (hinv : Inv s) (hguar : Guar M ws s s')
    {rows : List Uin} (hcovered : Covered R rows t s) : Covered R rows t s' := by
  have ht : t ≤ s.ext.now := hcovered.1
  have hlater := hguar.later
  refine ⟨Nat.le_trans ht hlater, fun hnow v hv => ?_⟩
  rcases hguar.fresh v hv with hguest | ⟨m, hm, hkept⟩
  · refine (hcovered.2 (Nat.lt_of_le_of_lt hlater hnow) v hguest).imp id fun hkept => ?_
    refine (hguar.pending v _ hnow ?_ hkept).resolve_right fun hretired => ?_
    · calc t + R ≤ s.ext.now + (M + R) := Nat.add_le_add ht (Nat.le_add_left R M)
        _ ≤ s.ext.now + pendingTtl := Nat.add_le_add_left hMR _
    · rw [hinv.native v hretired] at hguest
      cases hguest
  · have htm : t ≤ m + M := Nat.le_trans (Nat.le_trans ht hlater) (Nat.le_of_lt hm)
    refine .inr (hkept.mono ?_)
    calc t + R ≤ m + M + R := Nat.add_le_add_right htm R
      _ = m + (M + R) := Nat.add_assoc _ _ _
      _ ≤ m + pendingTtl := Nat.add_le_add_left hMR _

theorem coherent (hMR : M + R ≤ pendingTtl) : (outline M R).Coherent where
  rely_refl _ _ _ _ := ⟨le_rfl, id, Subset.refl _, fun _ _ => rfl, fun _ _ => id,
    fun _ _ _ _ _ => id, fun _ _ _ => id⟩
  rely_trans := by
    rintro _ l ws s₁ s₂ s₃ ⟨h₁, h₂, h₃, h₄, h₅, h₆, h₇⟩ ⟨k₁, k₂, k₃, k₄, k₅, k₆, k₇⟩
    refine ⟨Nat.le_trans h₁ k₁, k₂ ∘ h₂, Subset.trans h₃ k₃, fun u hu => (k₄ u hu).trans (h₄ u hu),
      fun u hu => h₅ u hu ∘ k₅ u hu, ?_, fun rows t hl => k₇ rows t hl ∘ h₇ rows t hl⟩
    intro u hu m hnone hpurged hmark
    refine k₆ u hu m ?_ (fun hmem => hpurged (h₅ u hu hmem)) (h₆ u hu m hnone hpurged hmark)
    rw [h₄ u hu, hnone]
  guar_refl _ _ _ s := guar_refl s
  rely_of_guar := by
    intro r l ws r' l' ws' s s' hinv hstep hlocked _
    have hinv : Inv s := hinv
    have hguar : Guar M ws s s' := hstep.guar
    refine ⟨hguar.later, hguar.built, hguar.retired, fun u hu => hguar.rows u (hlocked u hu),
      fun u hu hmem => (hguar.purged u hmem).resolve_right (hlocked u hu), ?_, ?_⟩
    · exact fun u _ m hnone hpurged => mark_of_guar hinv hguar hnone hpurged
    · exact fun rows t _ => covered_of_guar hMR hinv hguar

/-! ## Steps that mint nobody -/

/-- Nothing but marks is added. -/
structure Mild (e e' : Ext) : Prop where
  now : e'.now = e.now
  built : e'.built = e.built
  loaded : e'.loaded = e.loaded
  retired : e'.retired = e.retired
  purged : e'.purged = e.purged
  reports : e'.reports = e.reports
  guests : e.guests ⊆ e'.guests
  pending : ∀ u t, e.now < t → t ≤ e.now + pendingTtl → Kept u t e → Kept u t e'

theorem mild_refl (e : Ext) : Mild e e :=
  ⟨rfl, rfl, rfl, rfl, rfl, rfl, Subset.refl _, fun _ _ _ _ => id⟩

theorem mild_mark (e : Ext) (u : Uin) : Mild e (e.mark u) where
  now := rfl
  built := rfl
  loaded := rfl
  retired := rfl
  purged := rfl
  reports := rfl
  guests := subset_cons_self _ _
  pending := by
    intro v t hnow ht hkept
    refine (hkept.alter hnow fun marks hv => ?_).expire hnow ht
    exact ⟨_, rfl, mem_cons_of_mem _ hv⟩

theorem quiet : Quiet Mild where
  refl := mild_refl
  challenges _ _ := ⟨rfl, rfl, rfl, rfl, rfl, rfl, Subset.refl _, fun _ _ _ _ => id⟩

theorem calm : Calm Write.Updates Mild where
  toQuiet := quiet
  mark := mild_mark
  update u change := ⟨u, change, rfl⟩

theorem step_tell (hinv : Inv s) (he : Mild s.ext e) : (outline M R).Step r l ws s (s.tell e) where
  inv :=
    { marked := fun hbuilt v hv => he.guests (hinv.marked (he.built ▸ hbuilt) v hv)
      loaded := fun h => he.built ▸ hinv.loaded (he.loaded ▸ h)
      retired := fun v hv => by
        rw [tell_ext, he.purged]
        exact hinv.retired v (he.retired ▸ hv)
      native := fun v hv => hinv.native v (he.retired ▸ hv)
      purged := fun v hv => hinv.purged v (he.purged ▸ hv)
      reports := fun x hx => hinv.reports x (he.reports ▸ hx) }
  guar :=
    { later := Nat.le_of_eq he.now.symm
      built := fun h => he.built.symm ▸ h
      rows := fun _ _ => rfl
      purged := fun v hv => .inl (he.purged ▸ hv)
      retired := fun v hv => he.retired.symm ▸ hv
      pending := fun v t hnow ht h => .inl (he.pending v t (he.now ▸ hnow) ht h)
      guests := fun v t _ _ hv => .inl (he.guests hv)
      fresh := fun _ => .inl }

theorem step_updates (hinv : Inv s) (hws : ∀ w ∈ ws, w.Updates) (he : Mild s.ext e) :
    (outline M R).Step r l ws s (s.commit ws e) := by
  have hsofter := softer_of_updates hws s.db
  have htell : (outline M R).Step r l ws s (s.tell e) := step_tell hinv he
  have hinv' : Inv (s.tell e) := htell.inv
  have hguar : Guar M ws s (s.tell e) := htell.guar
  refine ⟨⟨?_, hinv'.loaded, ?_, ?_, ?_, hinv'.reports⟩, ⟨hguar.later, hguar.built, ?_, hguar.purged,
    hguar.retired, hguar.pending, hguar.guests, ?_⟩⟩
  · exact fun hbuilt v hv => hinv'.marked hbuilt v (guest_of_softer (hsofter v) hv)
  · intro v hv
    refine (hinv'.retired v hv).imp id fun h => ?_
    exact (isSome_of_softer (hsofter v)).trans h
  · intro v hv
    refine eq_false_iff.mpr fun h => ?_
    have hfalse := hinv'.native v hv
    rw [tell_db, guest_of_softer (hsofter v) h] at hfalse
    cases hfalse
  · intro v hv
    have hnone : s.db.users.get v = none := hinv'.purged v hv
    refine isSome_eq_false_iff.mp ?_ |> isNone_iff_eq_none.mp
    exact (isSome_of_softer (hsofter v)).trans (by rw [hnone]; rfl)
  · exact fun v hv => get_applyAll_of_notMem hv s.db
  · exact fun v hv => .inl (guest_of_softer (hsofter v) hv)

theorem framed : (outline M R).Framed r Write.Updates Mild fun ws _ => ∀ w ∈ ws, w.Updates where
  stable _ _ _ _ h _ _ := h
  stmt l ws s new e h hinv hnew he := by
    refine ⟨step_tell hinv he, fun w hw => ?_⟩
    exact (mem_append.mp hw).elim (h w) (hnew w)
  commit l ws s e h hinv he := ⟨step_updates hinv h he, by simp⟩
  rollback _ _ _ := by simp

theorem framed_nil : (outline M R).Framed r (fun _ => False) Mild fun ws _ => ws = [] where
  stable _ _ _ _ h _ _ := h
  stmt l ws s new e h hinv hnew he := by
    obtain rfl : new = [] := eq_nil_iff_forall_not_mem.mpr hnew
    exact ⟨step_tell hinv he, by rw [h, append_nil]⟩
  commit l ws s e h hinv he := ⟨step_updates hinv (by simp [h]) he, rfl⟩
  rollback _ _ _ := rfl

/-- A part of a handler that writes nothing. -/
theorem quiet_safe {p : Handler α} (hp : p.Within (fun _ => False) Mild) {f : α → Handler β}
    {Q : β → List Write → State → Prop}
    (hf : ∀ a s, (outline M R).wp r (f a) Q [] s) : (outline M R).wp r (p.bind f) Q [] s := by
  refine wp_within_bind framed_nil hp rfl ?_
  rintro a ws s rfl
  exact hf a s

/-! ## The mirror -/

theorem mem_pendingMarks (h : Kept u t e) (hnow : e.now < t) : u ∈ e.pendingMarks := by
  obtain ⟨marks, hread, hmem⟩ := Keeps.read h hnow
  rw [Ext.pendingMarks, hread]
  exact hmem

theorem covered_read (s : State) :
    Covered R ((s.db.users.select fun _ row => row.guestStatus.isSome).map Prod.fst) s.ext.now s := by
  refine ⟨le_rfl, fun _ v hv => .inl ?_⟩
  unfold Db.guest at hv
  cases hrow : s.db.users.get v with
  | none =>
    rw [hrow] at hv
    cases hv
  | some row =>
    rw [hrow] at hv
    exact mem_map.mpr ⟨(v, row), Table.mem_select.mpr ⟨hrow, hv⟩, rfl⟩

theorem step_replace {rows : List Uin} (hinv : Inv s) (hcovered : Covered R rows t s)
    (hnow : s.ext.now < t + R) : (outline M R).Step r l ws s (s.tell (s.ext.replace rows)) where
  inv :=
    { hinv with
      marked := fun _ v hv => (hcovered.2 hnow v hv).elim (mem_append_left _)
        fun hkept => mem_append_right _ (mem_pendingMarks hkept hnow)
      loaded := fun _ => rfl }
  guar :=
    { guar_refl s with
      built := fun _ => rfl
      guests := fun _ _ hv hkept _ => .inl (mem_append_right _ (mem_pendingMarks hkept hv)) }

section

variable (hMR : M + R ≤ pendingTtl)

include hMR

theorem rebuild_safe : (outline M R).wp r rebuild (fun _ ws s => ws = [] ∧ s.ext.built) [] s := by
  refine wp_read_bind (coherent hMR) fun s₁ _ _ _ => wp_effect fun s₂ hrely hinv hcond => ?_
  have hcovered := hrely.covered _ _ rfl (covered_read s₁)
  exact ⟨step_replace hinv hcovered (of_decide_eq_true hcond.2), rfl, rfl⟩

theorem ensure_safe : (outline M R).wp r ensure (fun _ ws s => ws = [] ∧ s.ext.built) [] s := by
  refine wp_read_bind (coherent hMR) fun s' _ hinv _ => ?_
  unfold onlyIf
  split
  · exact rebuild_safe hMR
  · refine ⟨rfl, ?_⟩
    have hinv : Inv s' := hinv
    rcases or_eq_true_iff.mp (eq_true_of_not_eq_false ‹_›) with hloaded | hbuilt
    · refine hinv.loaded ?_
      cases hentry : s'.ext.loaded with
      | none =>
        rw [hentry] at hloaded
        cases hloaded
      | some _ => rfl
    · exact hbuilt

omit hMR in
theorem step_report {answer guest : Bool} (hinv : Inv s) (h : answer = false → guest = false) :
    (outline M R).Step r l ws s (s.tell (s.ext.report u answer guest)) := by
  cases answer with
  | true => exact ⟨hinv, guar_refl s⟩
  | false =>
    exact ⟨{ hinv with reports := forall_mem_cons.mpr ⟨h rfl, hinv.reports⟩ }, { guar_refl s with }⟩

theorem isGuest_safe (uin : Uin) (cacheFails : Bool) :
    (outline M R).wp r (isGuest uin cacheFails) (fun _ ws _ => ws = []) [] s := by
  unfold isGuest
  split
  · exact fun s' _ hinv _ => ⟨step_report hinv id, rfl⟩
  · refine wp_seq (ensure_safe hMR) ?_
    rintro _ ws s ⟨rfl, hbuilt⟩ s' hrely hinv _
    have hinv' : Inv s' := hinv
    refine ⟨step_report hinv fun hout => ?_, rfl⟩
    -- the set has every guest by now
    refine eq_false_iff.mpr fun hguest => ?_
    have hmem := hinv'.marked (hrely.built hbuilt) uin hguest
    rw [contains_iff_mem.mpr hmem] at hout
    cases hout

theorem background_safe : (outline M R).Safe r background [] s := by
  have hlock : ∀ (e : Ext) lock, Mild e { e with rebuildLock := lock } := fun _ _ =>
    ⟨rfl, rfl, rfl, rfl, rfl, rfl, Subset.refl _, fun _ _ _ _ => id⟩
  intro s' _ hinv _
  refine ⟨step_tell hinv ?_, ?_⟩
  · dsimp only
    split
    · exact hlock _ _
    · exact mild_refl _
  · change (outline M R).wp r (onlyIf _ (rebuild.bind _)) _ [] _
    unfold onlyIf
    split
    · refine wp_seq (rebuild_safe hMR) ?_
      rintro _ ws s ⟨rfl, -⟩
      exact wp_effect fun s' _ hinv _ => ⟨step_tell hinv (hlock _ _), trivial⟩
    · exact trivial

end

/-! ## The mint -/

/-- A new row is in the making: nobody has the number, and nobody has had it. -/
structure Minting (u : Uin) (row : User) (ws : List Write) (s : State) : Prop where
  writes : ws = [.insert u row]
  free : s.db.users.get u = none
  unused : u ∉ s.ext.purged

theorem Minting.stable {l : Option Label} (h : Minting u row ws s)
    (hrely : Rely R l ws s s') : Minting u row ws s' := by
  have hu : u ∈ ws.map Write.uin := by
    rw [h.writes]
    exact mem_singleton.mpr rfl
  refine ⟨h.writes, (hrely.rows u hu).trans h.free, fun hmem => h.unused (hrely.purged u hu hmem)⟩

theorem Minting.mark_stable {l : Option Label} (h : Minting u row ws s)
    (hmark : Mark u m s.ext) (hrely : Rely R l ws s s') : Mark u m s'.ext := by
  have hu : u ∈ ws.map Write.uin := by
    rw [h.writes]
    exact mem_singleton.mpr rfl
  exact hrely.mark u hu m h.free h.unused hmark

theorem mark_mark (e : Ext) (u : Uin) : Mark u e.now (e.mark u) := by
  refine ⟨le_rfl, fun _ => ⟨mem_cons_self, ?_⟩⟩
  refine keeps_expire (read_alter _ _ _) ?_ _
  exact mem_cons_self

/-- The commit of a mint whose mark is pending. -/
theorem step_mint (hM : M ≤ pendingTtl) (hinv : Inv s)
    (h : Minting u row ws s) (hmark : Mark u m s.ext) (hnow : s.ext.now < m + M) :
    (outline M R).Step r l ws s (s.commit ws s.ext) := by
  obtain ⟨rfl, hfree, hunused⟩ := h
  obtain ⟨hguests, hkept⟩ := hmark.2 (Nat.lt_of_lt_of_le hnow (Nat.add_le_add_left hM m))
  have hget : ∀ v, v ≠ u → (s.view [Write.insert u row]).users.get v = s.db.users.get v := by
    intro v hv
    exact get_applyAll_of_notMem (fun hmem => hv (mem_singleton.mp hmem)) s.db
  have hretired : u ∉ s.ext.retired := by
    intro hmem
    rcases hinv.retired u hmem with hpurged | hsome
    · exact hunused hpurged
    · rw [hfree] at hsome
      cases hsome
  -- every other row is as before
  have hne : ∀ v ∈ s.ext.retired, v ≠ u := fun v hv heq => hretired (heq ▸ hv)
  refine ⟨⟨?_, hinv.loaded, ?_, ?_, ?_, hinv.reports⟩, ⟨le_rfl, id, ?_, fun _ => .inl,
    Subset.refl _, fun _ _ _ _ => .inl, fun _ _ _ _ => .inl, ?_⟩⟩
  · intro hbuilt v hv
    by_cases hvu : v = u
    · exact hvu ▸ hguests
    · exact hinv.marked hbuilt v (guest_eq (hget v hvu) ▸ hv)
  · intro v hv
    rw [commit_db, hget v (hne v hv)]
    exact hinv.retired v hv
  · intro v hv
    exact (guest_eq (hget v (hne v hv))).trans (hinv.native v hv)
  · intro v hv
    have hvu : v ≠ u := fun heq => hunused (heq ▸ hv)
    rw [commit_db, hget v hvu]
    exact hinv.purged v hv
  · exact fun v hv => get_applyAll_of_notMem hv s.db
  · intro v hv
    by_cases hvu : v = u
    · exact .inr ⟨m, hnow, hvu ▸ hkept⟩
    · exact .inl (guest_eq (hget v hvu) ▸ hv)

theorem mint_safe (hMR : M + R ≤ pendingTtl) {env : MintEnv}
    (henv : r.mintCommits → env.commitFails = false) (identityKey signingKey : KeyText)
    (status : Status) (lock : CreateLock) (guard : Option Challenge) :
    (outline M R).Safe r (mint env identityKey signingKey status lock guard) [] s := by
  unfold mint
  refine quiet_safe (quiet.allocateUin env) fun u s => ?_
  refine wp_seq (Q := fun _ ws s => ∃ row, Minting u row ws s) ?_ ?_
  · intro s' _ hinv hcond
    refine ⟨⟨hinv, guar_refl s'⟩, ?_⟩
    dsimp only
    split
    · exact fun _ _ _ => trivial
    · rename_i hfree
      refine ⟨_, rfl, not_isSome_iff_eq_none.mp hfree, fun hmem => ?_⟩
      have hunused : (!s'.ext.purged.contains u) = true := hcond.2
      have hmem : u ∈ s'.ext.purged := hmem
      rw [contains_iff_mem.mpr hmem] at hunused
      cases hunused
  · rintro _ ws s ⟨row, hminting⟩
    split
    · intro s' _ _
      exact quiet_safe (quiet.releaseKey guard) fun _ _ => trivial
    refine wp_seq (Q := fun m ws s => Minting u row ws s ∧ Mark u m s.ext) ?_ ?_
    · intro s' hrely hinv _
      refine ⟨step_tell hinv (mild_mark _ _), ?_⟩
      have hminting := hminting.stable hrely
      rw [append_nil]
      exact ⟨⟨hminting.writes, hminting.free, hminting.unused⟩, mark_mark s'.ext u⟩
    · rintro m ws s ⟨hminting, hmark⟩
      split
      · -- a mint that does not commit is not among those of the condition
        intro s' _ _ s'' _ _ hcond
        have hfails := henv hcond.1
        simp_all
      · intro s' hrely hinv hcond
        have hnow : s'.ext.now < m + M := of_decide_eq_true hcond.2
        have hM : M ≤ pendingTtl := Nat.le_trans (Nat.le_add_right M R) hMR
        exact ⟨step_mint hM hinv (hminting.stable hrely) (hminting.mark_stable hmark hrely) hnow,
          trivial⟩

/-! ## The end of a guest -/

theorem step_unmark (hinv : Inv s) (hretired : u ∈ s.ext.retired) :
    (outline M R).Step r l ws s (s.tell (s.ext.unmark u)) where
  inv :=
    { hinv with
      marked := by
        intro hbuilt v hv
        refine mem_filter.mpr ⟨hinv.marked hbuilt v hv, bne_iff_ne.mpr fun heq => ?_⟩
        rw [heq, tell_db, hinv.native u hretired] at hv
        cases hv }
  guar :=
    { guar_refl (M := M) s with
      pending := by
        intro v t hnow _ hkept
        by_cases hvu : v = u
        · exact .inr (hvu ▸ hretired)
        have hnow : s.ext.now < t := hnow
        have hstill : Kept v t (s.ext.unmark u) := by
          unfold Kept Ext.unmark
          dsimp only
          refine Keeps.alter (P := (v ∈ ·)) hkept hnow fun marks hv => ?_
          have hmem : v ∈ marks.filter (· != u) := mem_filter.mpr ⟨hv, bne_iff_ne.mpr hvu⟩
          refine ⟨marks.filter (· != u), mem_filter_iff.mpr ⟨rfl, ?_⟩, hmem⟩
          cases hfilter : marks.filter (· != u) with
          | nil =>
            rw [hfilter] at hmem
            cases hmem
          | cons _ _ => rfl
        exact .inl hstill
      guests := by
        intro v t _ _ hv
        by_cases hvu : v = u
        · exact .inr (hvu ▸ hretired)
        · exact .inl (mem_filter.mpr ⟨hv, bne_iff_ne.mpr hvu⟩)
      fresh := fun _ => .inl }

theorem unmark_safe (hretired : u ∈ s.ext.retired) : (outline M R).Safe r (unmarkGuest u) ws s :=
  wp_effect fun _ hrely hinv _ => ⟨step_unmark hinv (hrely.retired hretired), trivial⟩

/-- The commit that makes a guest a resident, or deletes him. -/
theorem step_retire {w : Write} {purged : List Uin} (hinv : Inv s) (hw : w.uin = u)
    (hguest : (s.view [w]).guest u = false) (hpurged : purged = s.ext.purged ∨
      purged = u :: s.ext.purged ∧ (s.view [w]).users.get u = none)
    (hsome : u ∈ purged ∨ ((s.view [w]).users.get u).isSome)
    (hkeep : u ∈ s.ext.purged → (s.view [w]).users.get u = none) : (outline M R).Step r l [w] s
      (s.commit [w] { s.ext with retired := u :: s.ext.retired, purged := purged }) := by
  have hget : ∀ v, v ≠ u → (s.view [w]).users.get v = s.db.users.get v := by
    intro v hv
    refine get_applyAll_of_notMem (fun hmem => hv ?_) s.db
    exact (mem_singleton.mp hmem).trans hw
  have hsub : s.ext.purged ⊆ purged := by
    rcases hpurged with h | ⟨h, -⟩
    · exact h ▸ Subset.refl _
    · exact h ▸ subset_cons_self _ _
  refine ⟨⟨?_, hinv.loaded, ?_, ?_, ?_, hinv.reports⟩, ⟨le_rfl, id, ?_, ?_,
    subset_cons_self _ _, fun _ _ _ _ => .inl, fun _ _ _ _ => .inl, ?_⟩⟩
  · intro hbuilt v hv
    by_cases hvu : v = u
    · rw [hvu, commit_db, hguest] at hv
      cases hv
    · exact hinv.marked hbuilt v (guest_eq (hget v hvu) ▸ hv)
  · intro v hv
    rw [commit_db]
    by_cases hvu : v = u
    · exact hvu ▸ hsome
    · rw [hget v hvu]
      exact (hinv.retired v ((mem_cons.mp hv).resolve_left hvu)).imp (hsub ·) id
  · intro v hv
    by_cases hvu : v = u
    · exact hvu ▸ hguest
    · exact (guest_eq (hget v hvu)).trans (hinv.native v ((mem_cons.mp hv).resolve_left hvu))
  · intro v hv
    rw [commit_db]
    by_cases hvu : v = u
    · subst hvu
      rcases hpurged with h | ⟨-, hnone⟩
      · exact hkeep (h ▸ hv)
      · exact hnone
    · rw [hget v hvu]
      refine hinv.purged v ?_
      rcases hpurged with h | ⟨h, -⟩
      · exact h ▸ hv
      · exact (mem_cons.mp (h ▸ hv)).resolve_left hvu
  · exact fun v hv => get_applyAll_of_notMem hv s.db
  · intro v hv
    rcases hpurged with h | ⟨h, -⟩
    · exact .inl (h ▸ hv)
    · rcases mem_cons.mp (h ▸ hv) with rfl | hv
      · exact .inr (mem_singleton.mpr hw.symm)
      · exact .inl hv
  · intro v hv
    by_cases hvu : v = u
    · rw [hvu, commit_db, hguest] at hv
      cases hv
    · exact .inl (guest_eq (hget v hvu) ▸ hv)

theorem guestSettle_safe (me : Uin) (gate : Option HttpError) :
    (outline M R).Safe r (guestSettle me gate) [] s := by
  unfold guestSettle
  refine quiet_safe (Within.read mild_refl) fun row s => ?_
  cases row with
  | none => exact trivial
  | some row =>
    refine wp_raiseIf_bind fun _ => quiet_safe (Quiet.refuseAs gate) fun _ s => ?_
    -- the row is there, and locked from now on
    refine wp_bind.mpr (wp_update (fun _ _ => guar_refl) fun s₁ _ _ _ => ?_)
    refine wp_raiseIf_bind fun hnot => ?_
    have hfound := eq_true_of_not_eq_false hnot
    rw [if_pos hfound]
    intro s' hrely hinv _
    have hinv : Inv s' := hinv
    have hsome : (s'.db.users.get me).isSome := by
      rw [hrely.rows me mem_cons_self]
      exact hfound
    have hview : (s'.view [Write.update me .settle]).users.get me =
        (s'.db.users.get me).map Change.settle.apply :=
      get_apply_self (.update me .settle) s'.db
    refine ⟨step_retire hinv rfl ?_ (.inl rfl) (.inr ?_) ?_, unmark_safe mem_cons_self⟩
    · rw [Db.guest, hview]
      cases s'.db.users.get me with
      | none => rfl
      | some _ => rfl
    · rw [hview, isSome_map]
      exact hsome
    · intro hpurged
      rw [hinv.purged me hpurged] at hsome
      cases hsome

theorem purgeAccount_safe (uin : Uin) : (outline M R).Safe r (purgeAccount uin) [] s := by
  unfold purgeAccount
  refine quiet_safe (Within.read mild_refl) fun row s => ?_
  cases row with
  | none => exact trivial
  | some row =>
    refine wp_bind.mpr (wp_update (fun _ _ => guar_refl) fun s₁ _ _ _ => ?_)
    intro s' _ hinv _
    have hnone : (s'.view [Write.delete uin]).users.get uin = none :=
      get_apply_self (.delete uin) s'.db
    refine ⟨step_retire hinv rfl ?_ (.inr ⟨rfl, hnone⟩) (.inl mem_cons_self) fun _ => hnone, ?_⟩
    · rw [Db.guest, hnone]
      rfl
    · change (outline M R).wp r (onlyIf _ _) _ [] _
      unfold onlyIf
      split
      · exact unmark_safe mem_cons_self
      · exact trivial

/-! ## Requests -/

/-- The part of a mint that runs under the create lock. -/
theorem locked_safe {raw : KeyBytes} {body : CreateLock → Handler GuestOut}
    (hbody : ∀ lock s, (outline M R).Safe r (body lock) [] s) :
    (outline M R).Safe r ((acquireCreateLock raw).bind fun lock => (body lock).attempt.bind fun out =>
      (releaseCreateLock lock).bind fun _ => ofExcept out) [] s := by
  have hlocks : ∀ (e : Ext) locks n, Mild e { e with createLocks := locks, nextToken := n } :=
    fun _ _ _ => ⟨rfl, rfl, rfl, rfl, rfl, rfl, Subset.refl _, fun _ _ _ _ => id⟩
  have hacquire : (acquireCreateLock raw).Within (fun _ => False) Mild := by
    refine fun _ e => ⟨by simp, ?_, Within.ite trivial trivial⟩
    dsimp only
    split
    · exact hlocks _ _ _
    · exact mild_refl _
  refine quiet_safe hacquire fun lock s => ?_
  refine wp_seq (Q := fun _ _ _ => True)
    (wp_attempt (hbody lock s) (fun _ _ _ _ => trivial) fun _ _ _ => trivial) ?_
  intro out ws s _ s' _ hinv _
  refine ⟨step_tell hinv ?_, ?_⟩
  · dsimp only
    split
    · exact hlocks _ _ _
    · exact mild_refl _
  · cases out with
    | ok a => exact trivial
    | error e => exact trivial

section

variable (hMR : M + R ≤ pendingTtl)

include hMR

theorem guestJoin_safe {body : GuestIn} {env : GuestEnv}
    (henv : r.mintCommits → env.commitFails = false) :
    (outline M R).Safe r (guestJoin body env) [] s := by
  have hexisting : ∀ row raw s, (outline M R).Safe r
      (guestExistingRow env row body.identityKey raw (some body.challenge)) [] s :=
    fun row raw s => safe_within framed (calm.guestExistingRow env row _ raw _) (by simp)
  unfold guestJoin
  refine wp_raiseIf_bind fun _ => quiet_safe (Quiet.checkKey _ _) fun rawIdentity s => ?_
  refine quiet_safe (Quiet.checkKey _ _) fun raw s => wp_raiseIf_bind fun _ => ?_
  refine wp_raiseIf_bind fun _ => wp_raiseIf_bind fun _ => wp_raiseIf_bind fun _ => ?_
  refine quiet_safe (quiet.claimChallenge _) fun _ s => quiet_safe (quiet.rowForKey raw) ?_
  rintro (_ | row) s
  · refine quiet_safe (quiet.rotatedAccount raw) fun _ s => wp_raiseIf_bind fun _ => ?_
    refine quiet_safe (Quiet.refuseAs _) fun _ s => locked_safe fun lock s => ?_
    refine quiet_safe (quiet.rowForKey raw) ?_
    rintro (_ | row) s
    · exact safe_map (mint_safe hMR henv _ _ _ lock _) _
    · exact hexisting row rawIdentity s
  · exact hexisting row rawIdentity s

theorem addGuest_safe {me : Uin} {body : GuestAddIn} {env : GuestAddEnv}
    (henv : r.mintCommits → env.commitFails = false) :
    (outline M R).Safe r (addGuest me body env) [] s := by
  have hexisting : ∀ row s, (outline M R).Safe r (addExisting env row) [] s :=
    fun row s => safe_within framed (calm.addExisting env row) (by simp)
  unfold addGuest
  refine wp_seq (isGuest_safe hMR me env.cacheFails) ?_
  rintro guest ws s rfl
  refine wp_raiseIf_bind fun _ => quiet_safe (Quiet.checkKey _ _) fun _ s => ?_
  refine quiet_safe (Quiet.checkKey _ _) fun raw s => wp_raiseIf_bind fun _ => ?_
  refine quiet_safe (Quiet.refuseAs _) fun _ s => quiet_safe (quiet.rowForKey raw) ?_
  rintro (_ | row) s
  · refine quiet_safe (quiet.rotatedAccount raw) fun _ s => wp_raiseIf_bind fun _ => ?_
    refine quiet_safe (Quiet.refuseAs _) fun _ s => locked_safe fun lock s => ?_
    refine quiet_safe (quiet.rowForKey raw) ?_
    rintro (_ | row) s
    · exact safe_map (mint_safe hMR henv _ _ _ lock _) _
    · exact hexisting row s
  · exact hexisting row s

theorem handler_safe (r : Request) (s : State) : (outline M R).Safe r (handler r) [] s := by
  cases r with
  | guestJoin body env =>
    refine safe_map (guestJoin_safe hMR fun hcommits => ?_) _
    exact (not_eq_true' _).mp hcommits
  | addGuest me body env =>
    refine safe_map (addGuest_safe hMR fun hcommits => ?_) _
    exact (not_eq_true' _).mp hcommits
  | guestSettle me gate => exact safe_map (guestSettle_safe me gate) _
  | purgeAccount uin => exact safe_map (purgeAccount_safe uin) _
  | isGuest uin cacheFails =>
    exact safe_map (wp_mono (isGuest_safe hMR uin cacheFails) fun _ _ _ _ => trivial) _
  | background => exact safe_map (background_safe hMR) _
  | tick seconds =>
    refine safe_map (wp_effect fun s' _ hinv _ => ⟨⟨?_, ?_⟩, trivial⟩) _
    · exact { hinv with }
    · exact ⟨Nat.le_add_right _ _, id, fun _ _ => rfl, fun _ => .inl, Subset.refl _,
        fun _ _ _ _ => .inl, fun _ _ _ _ => .inl, fun _ => .inl⟩

end

theorem inv_initial (db : Db) (now : Time) : Inv ⟨db, .initial now, []⟩ where
  marked h := (nomatch h)
  loaded h := (nomatch h)
  retired _ h := (nomatch h)
  native _ h := (nomatch h)
  purged _ h := (nomatch h)
  reports _ h := (nomatch h)

end Marked

/-! ## What the mirror reports -/

/-- Every mint commits, within `M` seconds of its mark, no purged number is minted again, and a rebuild
replaces the set within `R` seconds of its read. -/
def MarksInTime (M R : Time) (w : World) : Action Request → Prop
  | .step n => ∀ x ∈ w.upcoming n, x.1.mintCommits ∧ x.2.inTime M R w.shared.ext
  | _ => True

instance (M R : Time) (w : World) (a : Action Request) : Decidable (MarksInTime M R w a) := by
  rcases a with _ | _ <;> unfold MarksInTime <;> infer_instance

/-- **Guests are never reported as native.**  In every run in which mints and rebuilds together take no
longer than a pending mark lives, no number that was reported as native had the row of a guest. -/
theorem guests_are_never_native {M R : Time} (hMR : M + R ≤ pendingTtl) {db : Db} {now : Time}
    {w : World} (hrun : Run handler (MarksInTime M R) (.fresh db (.initial now)) w) :
    ∀ x ∈ w.shared.ext.reports, x.guest = false := by
  have hinv : Marked.Inv w.shared := inv_of_run (Marked.coherent hMR)
    (fun r s _ _ => Marked.handler_safe hMR r s) (Marked.inv_initial db now)
    (hrun.mono (allows_of_upcoming (fun _ _ => trivial) (fun _ _ _ _ => trivial) fun _ _ h => h))
  exact hinv.reports

/-- The text of 32 zero bytes. -/
def zeroKey : KeyText := replicate 43 'A' ++ ['=']

/-- A member puts somebody in a room, under the number 7. -/
def addSeven : Request :=
  .addGuest 1 ⟨zeroKey, zeroKey, "guest"⟩
    { draw := fun _ => 7, spoken := fun _ => false, markFails := false, commitFails := false,
      cacheFails := false, callerRefusal := none, roomRefusal := none, targetRefusal := none,
      isMember := false }

/-- A rebuild has read the table; a guest is minted; the rebuild replaces the set after `wait`
seconds. -/
def mintDuringRebuild (wait : Time) : List (Action Request) :=
  .start (Request.isGuest 1 false) :: steps 0 5 ++ .start Request.background :: steps 1 2 ++
    .start addSeven :: steps 2 20 ++ .start (Request.tick wait) :: steps 3 2 ++ steps 1 3 ++
    .start (Request.isGuest 7 false) :: steps 4 5

theorem guests_are_never_native_soon :
    let w := (fresh ⟨∅, ∅⟩ (.initial 1000) : World).play handler (mintDuringRebuild 50)
    w.answer? 2 = some (.guest ⟨7, true, true⟩) ∧ w.answer? 4 = some (.isGuest true) ∧
      w.shared.ext.reports.length = 2 ∧ ∀ x ∈ w.shared.ext.reports, x.guest = false := by
  intro w
  have hrun : Run handler (MarksInTime 60 60) (.fresh ⟨∅, ∅⟩ (.initial 1000)) w :=
    .of_play _ (by decide +kernel)
  exact ⟨by decide +kernel, by decide +kernel, by decide +kernel,
    guests_are_never_native (by decide) hrun⟩

/-- The mint commits at once, and its mark has lapsed when the rebuild replaces the set. -/
theorem slow_rebuild_forgets_guest :
    let w := (fresh ⟨∅, ∅⟩ (.initial 1000) : World).play handler (mintDuringRebuild 121)
    Run handler (MarksInTime pendingTtl 1000) (.fresh ⟨∅, ∅⟩ (.initial 1000)) w ∧
      w.answer? 2 = some (.guest ⟨7, true, true⟩) ∧ w.answer? 4 = some (.isGuest false) ∧
      w.shared.db.guest 7 ∧ ⟨7, true⟩ ∈ w.shared.ext.reports :=
  ⟨.of_play _ (by decide +kernel), by decide +kernel⟩

end RcqServer.Guests
