import RcqServer.Sessions.Collisions
import RcqServer.Sessions.Denylist

/-!
# A bump shuts the old tokens out

A number that changes hands gets a new epoch, and every token of the old one is to be refused from
then on.  The check asks the copy of the epochs in Redis.  Three statements write what was computed
from an earlier look at the table: the `UPDATE` of a bump, its write-through, and the replacement of
the copy by a rebuild.  As long as no bump commits while one of them is due for its number, nothing
that was written through is ever taken back.

Of the three only the `UPDATE` can spoil the table.  As long as no bump commits while that of another
one is due, every committed bump raises the epoch, and above every token issued so far.
-/

namespace RcqServer.Sessions

open ReadCommitted Prog Outline List Option World Shared

/-- The number whose bump the statement commits. -/
def Label.bumped : Label → Option Uin
  | .bump _ uin .commit => some uin
  | .rotate uin _ (.commit true) => some uin
  | _ => none

/-- The statement writes what was computed from an earlier look at the number's epoch. -/
def Label.usesEpoch (uin : Uin) : Label → Bool
  | .bump _ u .flush => u == uin
  | .bump _ u .cache => u == uin
  | .replaceEpochs => true
  | _ => false

/-- The statement is the `UPDATE` of a bump of the number. -/
def Label.flushes (uin : Uin) : Label → Bool
  | .bump _ u .flush => u == uin
  | _ => false

theorem Label.usesEpoch_of_flushes {uin : Uin} {l : Label} (h : l.flushes uin) :
    l.usesEpoch uin := by
  unfold Label.flushes at h
  split at h
  · exact h
  · cases h

namespace Epochs

variable {full : Prop} {r : Request} {l : Label} {ws : List Write} {s s' : State} {u : Uin} {epoch : ℕ}
  {α β : Type}

/-! ## The outline -/

/-- With `full`, the write-throughs and the rebuilds are waited for as well. -/
structure Inv (full : Prop) (s : State) : Prop where
  /-- The copy is not ahead of the table. -/
  cached : ∀ u, s.ext.cachedEpoch u ≤ s.db.epochOf u
  /-- The copy is not behind what was written through. -/
  bumps : full → ∀ b ∈ s.ext.bumps, b.epoch ≤ s.ext.cachedEpoch b.uin
  passes : full → ∀ pass ∈ s.ext.epochPasses, ∀ b ∈ pass.bumps, b.uin = pass.token.uin →
    b.epoch ≤ pass.token.epoch
  issued : ∀ i ∈ s.ext.issued, i.token.epoch ≤ s.db.epochOf i.token.uin
  rotations : ∀ ro ∈ s.ext.rotations, ro.signed → ∃ epoch, ro.epoch = some epoch ∧
    ∀ t ∈ ro.before, t.uin = ro.uin → t.epoch < epoch

structure Guar (l : Label) (ws : List Write) (s s' : State) : Prop where
  mono : ∀ u, s.db.epochOf u ≤ s'.db.epochOf u
  row : ∀ u, s'.db.uinEpochs.get u = s.db.uinEpochs.get u ∨
    l.bumped = some u ∧ RowKey.epoch u ∈ lockedRows Db ws
  quiet : s'.hist = s.hist → s'.db = s.db
  above : s'.hist ≠ s.hist → ∀ u ∈ l.bumped, s.db.epochOf u < s'.db.epochOf u

structure Rely (full : Prop) (l : Option Label) (ws : List Write) (s s' : State) : Prop where
  mono : ∀ u, s.db.epochOf u ≤ s'.db.epochOf u
  row : ∀ u, ((∃ x ∈ l, x.flushes u ∨ full ∧ x.usesEpoch u) ∨ RowKey.epoch u ∈ lockedRows Db ws) →
    s'.db.uinEpochs.get u = s.db.uinEpochs.get u

def outline (full : Prop) : Outline Db Ext Write Label Request where
  Inv := Inv full
  Rely _ := Rely full
  Guar _ := Guar
  Start _ _ := True
  Cond _ _ _ := True
  Apart l _ l' _ := ∀ u ∈ l.bumped, ∀ x ∈ l', ¬(x.flushes u ∨ full ∧ x.usesEpoch u)

theorem coherent : (outline full).Coherent where
  rely_refl _ _ _ _ := ⟨fun _ => le_rfl, fun _ _ => rfl⟩
  rely_trans _ _ _ _ _ _ h h' :=
    ⟨fun u => (h.mono u).trans (h'.mono u), fun u hu => (h'.row u hu).trans (h.row u hu)⟩
  guar_refl _ _ _ _ :=
    ⟨fun _ => le_rfl, fun _ => .inl rfl, fun _ => rfl, fun hne => absurd rfl hne⟩
  rely_of_guar := by
    intro r l ws r' l' ws' s s' _ hstep hlocks hapart
    have hguar : Guar l ws s s' := hstep.guar
    refine ⟨hguar.mono, fun u hu => ?_⟩
    rcases hapart with hsame | hapart
    · rw [hguar.quiet hsame]
    rcases hguar.row u with hkept | ⟨hbumped, hlocked⟩
    · exact hkept
    rcases hu with ⟨x, hx, huses⟩ | hlocked'
    · exact absurd huses (hapart u hbumped x hx)
    · exact absurd hlocked (hlocks _ hlocked')

/-! ## Steps that do not bump -/

/-- No row of `uin_epochs` is among the pending writes. -/
def Clean (ws : List Write) : Prop := ∀ u row, Write.epoch u row ∉ ws

theorem clean_nil : Clean [] := fun _ _ => not_mem_nil

theorem Clean.append {new : List Write} (h : Clean ws) (hnew : Clean new) : Clean (ws ++ new) :=
  fun u row hmem => (mem_append.mp hmem).elim (h u row) (hnew u row)

theorem Clean.uinEpochs (h : Clean ws) (db : Db) : (applyAll ws db).uinEpochs = db.uinEpochs := by
  refine applyAll_eq_of_forall Db.uinEpochs db fun o ho => sets_uinEpochs.other o ?_
  rintro u row rfl
  exact h u row ho

theorem guar_tell (e : Ext) : Guar l ws s (s.tell e) :=
  ⟨fun _ => le_rfl, fun _ => .inl rfl, fun _ => rfl, fun hne => absurd rfl hne⟩

theorem guar_commit_of_clean (h : Clean ws) (hl : l.bumped = none) (e : Ext) :
    Guar l ws s (s.commit ws e) where
  mono u := by
    rw [Db.epochOf, Db.epochOf, commit_db, view, h.uinEpochs]
  above _ u hu := by
    rw [hl] at hu
    cases hu
  row u := .inl (by rw [commit_db, view, h.uinEpochs])
  quiet hsame := absurd hsame (cons_ne_self _ _)

/-- The records that the invariant is about are the same. -/
structure Same (e e' : Ext) : Prop where
  epochs : e'.epochs = e.epochs
  issued : e'.issued = e.issued
  bumps : e'.bumps = e.bumps
  epochPasses : e'.epochPasses = e.epochPasses
  rotations : e'.rotations = e.rotations

theorem Same.refl (e : Ext) : Same e e := by
  constructor <;> rfl

theorem Same.of_aside {e e' : Ext} (h : Aside e e') : Same e e' :=
  ⟨h.epochs, h.issued, h.bumps, h.epochPasses, h.rotations⟩

theorem Inv.of_same (h : Inv full s) (hmono : ∀ u, s.db.epochOf u ≤ s'.db.epochOf u)
    (hsame : Same s.ext s'.ext) : Inv full s' where
  cached u := by
    rw [Ext.cachedEpoch, hsame.epochs]
    exact (h.cached u).trans (hmono u)
  bumps hf b hb := by
    rw [Ext.cachedEpoch, hsame.epochs]
    exact h.bumps hf b (hsame.bumps ▸ hb)
  passes hf pass hpass := h.passes hf pass (hsame.epochPasses ▸ hpass)
  issued i hi := (h.issued i (hsame.issued ▸ hi)).trans (hmono _)
  rotations ro hro := h.rotations ro (hsame.rotations ▸ hro)

/-- No write is to `uin_epochs`. -/
def NoEpoch (o : Write) : Prop := ∀ u row, o ≠ Write.epoch u row

theorem clean_of_noEpoch (h : ∀ o ∈ ws, NoEpoch o) : Clean ws :=
  fun u row hmem => h _ hmem u row rfl

theorem carried {L : Label → Prop} : (outline full).Carried r L NoEpoch fun ws _ => Clean ws where
  stable _ _ _ _ _ h _ _ := h
  write _ _ _ h _ hnew := h.append (clean_of_noEpoch hnew)

/-- A part that neither bumps nor checks nor mints. -/
theorem wp_quiet {p : Handler α} {f : α → Handler β} {R : β → List Write → State → Prop}
    {L : Label → Prop} (hp : p.Within NoEpoch Same) (hopen : p.Open L) (h : Clean ws)
    (hf : ∀ a ws s, Clean ws → (outline full).wp r (f a) R ws s) :
    (outline full).wp r (p.bind f) R ws s := by
  refine wp_seq (wp_open_effect carried (fun l ws s e h hinv hsame => ?_) hp hopen h) hf
  exact ⟨⟨Inv.of_same hinv (fun _ => le_rfl) hsame, guar_tell e⟩, h⟩

/-! ## The copy, the check and the mint -/

/-- The copy is replaced by the table as it is, or was. -/
theorem Inv.replace (h : Inv full s) {e : Ext} (hcopy : ∀ u, e.cachedEpoch u ≤ s.db.epochOf u)
    (hnow : full → ∀ u, e.cachedEpoch u = s.db.epochOf u)
    (hsame : Same { s.ext with epochs := e.epochs } e) : Inv full (s.tell e) where
  cached := hcopy
  bumps hf b hb := by
    have hbefore : b ∈ s.ext.bumps := hsame.bumps ▸ hb
    calc b.epoch ≤ s.ext.cachedEpoch b.uin := h.bumps hf b hbefore
      _ ≤ s.db.epochOf b.uin := h.cached b.uin
      _ = e.cachedEpoch b.uin := (hnow hf b.uin).symm
  passes hf pass hpass := h.passes hf pass (hsame.epochPasses ▸ hpass)
  issued i hi := h.issued i (hsame.issued ▸ hi)
  rotations ro hro := h.rotations ro (hsame.rotations ▸ hro)

/-- What a rebuild has read is the table until it replaces the copy, if that is waited for. -/
theorem loadEpochs_safe (h : Clean ws) :
    (outline full).wp r loadEpochs (fun _ ws _ => Clean ws) ws s := by
  let copy (rows : List (Uin × ℕ)) : Table Uin ℕ :=
    (∅ : Table Uin ℕ).setMany (rows.map fun r => (r.1, some r.2))
  have hread : (outline full).wp r
      (read .loadEpochs fun db _ => db.uinEpochs.select fun _ epoch => 0 < epoch : Handler _)
      (fun rows ws (s : State) => Clean ws ∧ ∀ u, ((copy rows).get u).getD 0 = s.db.epochOf u)
      ws s := by
    refine wp_read coherent fun s' _ _ _ => ⟨h, fun u => ?_⟩
    rw [view, h.uinEpochs, Table.get_setMany_select, Db.epochOf]
    cases hrow : s'.db.uinEpochs.get u with
    | none => rfl
    | some epoch =>
      -- an epoch of zero is not copied, and a number that is not copied has epoch zero
      rcases Nat.eq_zero_or_pos epoch with rfl | hpos
      · rfl
      · have hkept : (some epoch).filter (fun n => decide (0 < n)) = some epoch :=
          filter_eq_some_iff.mpr ⟨rfl, decide_eq_true hpos⟩
        rw [hkept]
  refine wp_seq hread fun rows ws s hrows => wp_effect fun s' hrely hinv _ =>
    ⟨⟨?_, guar_tell _⟩, hrows.1⟩
  refine Inv.replace hinv (fun u => (hrows.2 u).trans_le (hrely.mono u)) (fun hf u => ?_)
    (by constructor <;> rfl)
  have hrow := hrely.row u (.inl ⟨_, rfl, .inr ⟨hf, rfl⟩⟩)
  calc ((copy rows).get u).getD 0 = s.db.epochOf u := hrows.2 u
    _ = s'.db.epochOf u := by rw [Db.epochOf, Db.epochOf, hrow]

/-- A token is accepted while the copy is not behind what was written through. -/
theorem Inv.pass (h : Inv full s) {token : Token}
    (hepoch : token.epoch = s.ext.cachedEpoch token.uin) :
    Inv full (s.tell { s.ext with epochPasses := ⟨token, s.ext.bumps⟩ :: s.ext.epochPasses }) :=
  { h with
    passes hf pass hpass b hb huin := by
      rcases mem_cons.mp hpass with rfl | hpass
      · rw [hepoch, ← huin]
        exact h.bumps hf b hb
      · exact h.passes hf pass hpass b hb huin }

theorem Inv.mint (h : Inv full s) {token : Token} {bearer : Option Token}
    (hepoch : token.epoch ≤ s.db.epochOf token.uin) :
    Inv full (s.tell { s.ext with issued := ⟨token, bearer⟩ :: s.ext.issued }) :=
  { h with
    issued i hi := by
      rcases mem_cons.mp hi with rfl | hi
      · exact hepoch
      · exact h.issued i hi }

theorem mint_safe {bearer : Option Token} {make : Time → Token} (h : Clean ws)
    (hmake : ∀ now, (make now).uin = u ∧ (make now).epoch = epoch) (hepoch : epoch ≤ s.db.epochOf u) :
    (outline full).wp r (mint l bearer make) (fun _ ws _ => Clean ws) ws s := by
  intro s' hrely hinv _
  obtain ⟨huin, hmade⟩ := hmake s'.ext.now
  refine ⟨⟨Inv.mint hinv ?_, guar_tell _⟩, h.append clean_nil⟩
  rw [huin, hmade]
  exact hepoch.trans (hrely.mono u)

theorem common : Common fun {α} (p : Handler α) =>
    ∀ ws s, Clean ws → (outline full).wp r p (fun _ ws _ => Clean ws) ws s where
  ret _ _ _ h := h
  raise _ _ _ _ := trivial
  bind hp hf ws s h := wp_seq (hp ws s h) fun a ws s h => hf a ws s h
  read _ _ _ _ h := wp_read coherent fun _ _ _ _ => h
  aside _ _ _ hx hk _ _ h := fun _ _ hinv _ =>
    ⟨⟨Inv.of_same hinv (fun _ => le_rfl) (.of_aside (hx _ _)), guar_tell _⟩,
      hk _ _ _ _ (h.append clean_nil)⟩
  retireSlot slot row ws s h := by
    refine wp_write coherent fun s' _ _ _ => ?_
    refine h.append fun u row hmem => ?_
    simp at hmem
  commitSlot ws s h := fun _ _ hinv _ =>
    have hguar := guar_commit_of_clean h rfl _
    ⟨⟨Inv.of_same hinv hguar.mono (.refl _), hguar⟩, clean_nil⟩
  loadEpochs _ _ h := loadEpochs_safe h
  epochCheck token ws s h := by
    refine fun s' _ hinv _ => ⟨⟨?_, guar_tell _⟩, h.append clean_nil⟩
    dsimp only
    split
    · exact Inv.pass hinv ‹_›
    · exact hinv
  mint l bearer u make hmake ws s h := by
    have hread : (outline full).wp r (read .readEpoch fun _ e => e.cachedEpoch u : Handler ℕ)
        (fun epoch ws (s : State) => Clean ws ∧ epoch ≤ s.db.epochOf u) ws s :=
      wp_read coherent fun s' _ hinv _ => ⟨h, Inv.cached hinv u⟩
    exact wp_seq hread fun epoch ws s hepoch => mint_safe hepoch.1 (hmake epoch) hepoch.2

/-! ## Bumps -/

/-- The pending writes end with a new epoch for the number. -/
structure Bumping (u : Uin) (epoch : ℕ) (ws : List Write) (s : State) : Prop where
  above : s.db.epochOf u < epoch
  last : ∃ before, Clean before ∧ ws = before ++ [.epoch u (some epoch)]

theorem Bumping.locked (h : Bumping u epoch ws s) : RowKey.epoch u ∈ lockedRows Db ws := by
  obtain ⟨before, -, rfl⟩ := h.last
  simp [lockedRows, Store.key, Write.key]

/-- The row is locked, so the new epoch stays above. -/
theorem Bumping.stable (h : Bumping u epoch ws s) {x : Option Label} (hrely : Rely full x ws s s') :
    Bumping u epoch ws s' := by
  refine ⟨?_, h.last⟩
  rw [Db.epochOf, hrely.row u (.inr h.locked)]
  exact h.above

theorem Bumping.get_commit (h : Bumping u epoch ws s) (v : Uin) :
    (applyAll ws s.db).uinEpochs.get v = if v = u then some epoch else s.db.uinEpochs.get v := by
  obtain ⟨before, hclean, rfl⟩ := h.last
  rw [applyAll_concat, sets_uinEpochs.set, Table.get_set, hclean.uinEpochs]

theorem Bumping.epochOf_commit (h : Bumping u epoch ws s) (e : Ext) :
    (s.commit ws e).db.epochOf u = epoch := by
  rw [Db.epochOf, commit_db, view, h.get_commit, if_pos rfl, getD_some]

theorem Bumping.guar (h : Bumping u epoch ws s) (hl : l.bumped = some u) (e : Ext) :
    Guar l ws s (s.commit ws e) where
  mono v := by
    rw [Db.epochOf, Db.epochOf, commit_db, view, h.get_commit]
    split
    · rename_i hv
      subst hv
      exact h.above.le
    · exact le_rfl
  row v := by
    rw [commit_db, view, h.get_commit]
    split
    · rename_i hv
      subst hv
      exact .inr ⟨hl, h.locked⟩
    · exact .inl rfl
  quiet hsame := absurd hsame (cons_ne_self _ _)
  above _ v hv := by
    obtain rfl := some.inj (hl.symm.trans hv)
    exact h.above.trans_eq (h.epochOf_commit e).symm

/-- The epoch that was read is the row's until the `UPDATE`. -/
theorem bumpUinEpoch_safe {rotation : Option KeyBytes} (h : Clean ws) :
    (outline full).wp r (bumpUinEpoch rotation u) (fun new ws s => ∀ epoch ∈ new, Bumping u epoch ws s)
      ws s := by
  have hread : (outline full).wp r
      (read (.bump rotation u .read) fun db _ => db.uinEpochs.get u : Handler _)
      (fun row ws (s : State) => Clean ws ∧ s.db.uinEpochs.get u = row) ws s := by
    refine wp_read coherent fun s' _ _ _ => ⟨h, ?_⟩
    rw [view, h.uinEpochs]
  refine wp_seq hread fun row ws s hrow => ?_
  cases row with
  | none =>
    refine wp_write coherent fun s' hrely _ _ => ?_
    have hnone : s'.db.uinEpochs.get u = none :=
      (hrely.row u (.inl ⟨_, rfl, .inl (by simp [Label.flushes])⟩)).trans hrow.2
    rw [view, hrow.1.uinEpochs, hnone]
    intro epoch hepoch
    obtain rfl : 1 = epoch := some.inj hepoch
    exact ⟨by simp [Db.epochOf, hnone], _, hrow.1, rfl⟩
  | some old =>
    refine wp_write coherent fun s' hrely _ _ => ?_
    have hold : s'.db.uinEpochs.get u = some old :=
      (hrely.row u (.inl ⟨_, rfl, .inl (by simp [Label.flushes])⟩)).trans hrow.2
    intro epoch hepoch
    obtain rfl := some.inj hepoch
    exact ⟨by simp [Db.epochOf, hold], _, hrow.1, rfl⟩

/-- Nobody bumps the number between the commit and the write-through, if that is waited for. -/
theorem cacheUinEpoch_safe {rotation : Option KeyBytes} (h : Clean ws)
    (hepoch : s.db.epochOf u = epoch) : (outline full).wp r (cacheUinEpoch rotation u epoch)
      (fun _ ws s => Clean ws ∧ epoch ≤ s.db.epochOf u) ws s := by
  refine wp_effect fun s' hrely hinv _ => ?_
  have hle : epoch ≤ s'.db.epochOf u := hepoch ▸ hrely.mono u
  have hnow : full → s'.db.epochOf u = epoch := fun hf => by
    rw [Db.epochOf, hrely.row u (.inl ⟨_, rfl, .inr ⟨hf, by simp [Label.usesEpoch]⟩⟩), ← hepoch,
      Db.epochOf]
  have hcached : ∀ v, (s'.ext.epochs.set u (some epoch)).get v =
      if v = u then some epoch else s'.ext.epochs.get v := fun v => Table.get_set _ _ v _
  have hinv : Inv full s' := hinv
  refine ⟨⟨⟨fun v => ?_, fun hf b hb => ?_, hinv.passes, hinv.issued, hinv.rotations⟩,
    guar_tell _⟩, h, hle⟩
  · dsimp only [tell_ext, tell_db, Ext.cachedEpoch]
    rw [hcached]
    split
    · rename_i hv
      subst hv
      exact hle
    · exact hinv.cached v
  · dsimp only [tell_ext, Ext.cachedEpoch] at hb ⊢
    rw [hcached]
    split
    · rename_i hv
      rcases mem_cons.mp hb with rfl | hb
      · exact le_rfl
      · calc b.epoch ≤ s'.ext.cachedEpoch b.uin := hinv.bumps hf b hb
          _ ≤ s'.db.epochOf b.uin := hinv.cached b.uin
          _ = epoch := by rw [hv, hnow hf]
    · rename_i hv
      rcases mem_cons.mp hb with rfl | hb
      · exact absurd rfl hv
      · exact hinv.bumps hf b hb

theorem burn_safe (h : Clean ws) : (outline full).wp r (burn u) (fun _ ws _ => Clean ws) ws s := by
  refine wp_seq (bumpUinEpoch_safe h) fun new ws s hnew => ?_
  cases new with
  | none => exact fun _ _ _ => trivial
  | some epoch =>
    refine wp_commit fun s' hrely hinv _ => ?_
    have hbump := (hnew epoch rfl).stable hrely
    have hguar : Guar (.bump none u .commit) ws s' (s'.commit ws s'.ext) :=
      hbump.guar rfl s'.ext
    refine ⟨⟨Inv.of_same hinv hguar.mono (.refl _), hguar⟩, ?_⟩
    exact wp_mono (cacheUinEpoch_safe clean_nil (hbump.epochOf_commit s'.ext)) fun _ _ _ h => h.1

/-! ## Rotations -/

/-- A committed rotation is on record; if it was signed, its epoch is above every token's. -/
theorem Inv.rotated (h : Inv full s) {c : Change} {taken : List Uin} {claim : Option Claim}
    {new : Option ℕ} {db : Db} {hist : List Db} (hmono : ∀ u, s.db.epochOf u ≤ db.epochOf u)
    (hnew : claim.isSome → ∃ epoch, new = some epoch ∧ s.db.epochOf c.uin < epoch) :
    Inv full ⟨db, s.ext.rotated c taken claim new, hist⟩ where
  cached v := (h.cached v).trans (hmono v)
  bumps := h.bumps
  passes := h.passes
  issued i hi := (h.issued i hi).trans (hmono _)
  rotations ro hro hsigned := by
    rcases mem_cons.mp hro with rfl | hro
    · obtain ⟨epoch, rfl, habove⟩ := hnew hsigned
      refine ⟨epoch, rfl, fun t ht huin => ?_⟩
      obtain ⟨i, hi, rfl⟩ := mem_map.mp ht
      have huin : i.token.uin = c.uin := huin
      calc i.token.epoch ≤ s.db.epochOf i.token.uin := h.issued i hi
        _ = s.db.epochOf c.uin := by rw [huin]
        _ < epoch := habove
    · exact h.rotations ro hro hsigned

variable {token : Token} {env : ReissueEnv} {c : Change} {taken : List Uin} {claim : Option Claim}

theorem failRotation_safe {Q : α → List Write → State → Prop} :
    (outline full).wp r (failRotation c claim : Handler α) Q ws s := by
  intro s' _ _
  cases claim with
  | none => exact trivial
  | some claim =>
    refine fun s' _ hinv _ => ⟨⟨Inv.of_same hinv (fun _ => le_rfl) ?_, guar_tell _⟩, trivial⟩
    constructor <;> rfl

theorem applyChange_safe (h : Clean ws) :
    (outline full).wp r (applyChange token env c taken claim) (fun _ ws _ => Clean ws) ws s := by
  have hwrite : ∀ (db : Db) (e : Ext), ∀ o ∈ ((db.users.get c.uin).map fun row =>
      Write.user c.uin (some (c.apply e.now row))).toList, NoEpoch o := by
    intro db e o ho u row
    obtain ⟨account, -, rfl⟩ := map_eq_some_iff.mp (mem_toList.mp ho)
    simp
  refine wp_quiet (Within.write Same.refl hwrite) (Open.write (L := fun _ => True) trivial _ _) h
    fun _ ws s h => ?_
  refine wp_quiet (retireOld_within Same.refl (fun _ _ _ _ => Write.noConfusion) _ _)
    (Collisions.retireOld_open _) h fun retired ws s h => ?_
  split
  · exact failRotation_safe
  cases claim with
  | none =>
    change (outline full).wp r (if env.commitFails then failRotation c none else _) _ ws s
    split
    · exact failRotation_safe
    refine wp_commit fun s' _ hinv _ => ?_
    have hguar := guar_commit_of_clean (l := .rotate c.uin c.newSigning (.commit false)) (s := s') h
      rfl (s'.ext.rotated c taken none none)
    refine ⟨⟨Inv.rotated hinv hguar.mono (by simp), hguar⟩, ?_⟩
    exact common.uinEpoch_mint _ _ c.uin (fun epoch now => issueToken now c.uin epoch token.device)
      (fun _ _ => ⟨rfl, rfl⟩) _ _ clean_nil
  | some claim =>
    refine wp_seq (Q := fun new ws s => ∀ epoch ∈ new, ∃ n, epoch = some n ∧ Bumping c.uin n ws s)
      ?_ fun new ws s hnew => ?_
    · refine wp_seq (bumpUinEpoch_safe h) fun new ws s hnew => ?_
      intro epoch hepoch
      obtain ⟨n, rfl, rfl⟩ := map_eq_some_iff.mp hepoch
      exact ⟨n, rfl, hnew n rfl⟩
    cases new with
    | none => exact failRotation_safe
    | some epoch =>
      obtain ⟨n, rfl, hbump⟩ := hnew epoch rfl
      dsimp only
      split
      · exact failRotation_safe
      refine wp_commit fun s' hrely hinv _ => ?_
      have hbump := hbump.stable hrely
      have hguar := hbump.guar (l := .rotate c.uin c.newSigning (.commit true)) rfl
        (s'.ext.rotated c taken (some claim) (some n))
      refine ⟨⟨Inv.rotated hinv hguar.mono fun _ => ⟨n, rfl, hbump.above⟩, hguar⟩, ?_⟩
      change (outline full).wp r ((cacheUinEpoch (some c.newSigning) c.uin n).bind _) _ [] _
      refine wp_seq (cacheUinEpoch_safe clean_nil (hbump.epochOf_commit _)) fun _ ws s h => ?_
      exact mint_safe h.1 (fun _ => ⟨rfl, rfl⟩) h.2

theorem reissue_safe {verify : Verify} {body : ReissueIn} (h : Clean ws) :
    (outline full).wp r (reissue verify token body env) (fun _ ws _ => Clean ws) ws s := by
  refine common.bind (common.authorizeSession token) (fun u => ?_) ws s h
  split
  · refine common.bind (common.read _ _) fun user => ?_
    split
    · exact common.raise _
    split
    · split
      · exact common.ret _
      · exact common.uinEpoch_mint _ _ u (fun epoch now => issueToken now u epoch token.device)
          fun _ _ => ⟨rfl, rfl⟩
    · refine common.bind (common.read _ _) fun taken ws s h => ?_
      refine wp_quiet (judge_within Same.refl (fun e nonces => ?_) _ _ _ _) Collisions.judge_open h
        fun claim ws s h => ?_
      · constructor <;> rfl
      · exact applyChange_safe h
  · exact common.raise _

theorem handler_safe (cfg : Config) (verify : Verify) (r : Request) (s : State) :
    (outline full).Safe r (handler cfg verify r) [] s := by
  refine wp_mono (common.handler cfg verify r (fun _ _ _ _ _ _ h => reissue_safe h)
    (fun _ _ _ h => burn_safe h) (fun seconds ws s h => ?_) [] s clean_nil) fun _ _ _ _ => trivial
  refine wp_effect fun s' _ hinv _ => ⟨⟨Inv.of_same hinv (fun _ => le_rfl) ?_, guar_tell _⟩, h⟩
  constructor <;> rfl

end Epochs

/-! ## The system -/

/-- No bump of a number commits while a statement is due that uses an earlier look at its epoch. -/
def BumpsWait (w : World) : Action Request → Prop
  | .step k => ∀ x ∈ w.upcoming k, ∀ u ∈ x.2.bumped, ∀ j < w.sessions.length, j ≠ k →
      ∀ y ∈ w.upcoming j, y.2.usesEpoch u = false
  | _ => True

instance : DecidableRel BumpsWait := by
  rintro w (_ | _) <;> unfold BumpsWait <;> infer_instance

theorem Epochs.allows_of_bumpsWait {w : World} {a : Action Request} (h : BumpsWait w a) :
    (Epochs.outline True).Allows w a := by
  cases a with
  | start r => exact trivial
  | kill k => exact trivial
  | step k =>
    intro r p ws hk
    refine ⟨fun _ _ => trivial, ?_⟩
    intro _ l hl j r' p' ws' hj hother u hu x hx huses
    have hfree := h _ (upcoming_of_running hk hl) u hu j
      (List.getElem?_eq_some_iff.mp hother).1 hj _ (upcoming_of_running hother hx)
    rcases huses with hflushes | ⟨-, huses⟩
    · exact Bool.false_ne_true (hfree.symm.trans (Label.usesEpoch_of_flushes hflushes))
    · exact Bool.false_ne_true (hfree.symm.trans huses)

theorem Epochs.inv_initial (full : Prop) (db : Db) (now : Time) :
    Epochs.Inv full ⟨db, .initial now, []⟩ where
  cached _ := Nat.zero_le _
  bumps _ _ h := nomatch h
  passes _ _ h := nomatch h
  issued _ h := nomatch h
  rotations _ h := nomatch h

theorem Epochs.inv_of_bumpsWait {cfg : Config} {verify : Verify} {db : Db} {now : Time} {w : World}
    (hrun : Run (handler cfg verify) BumpsWait (.fresh db (.initial now)) w) :
    Epochs.Inv True w.shared :=
  inv_of_run Epochs.coherent (fun r s _ _ => Epochs.handler_safe cfg verify r s)
    (Epochs.inv_initial True db now) (Run.mono (fun _ _ => Epochs.allows_of_bumpsWait) hrun)

/-- **A bump shuts the old tokens out.**  In every run in which no bump of a number commits while a
flush or a write-through of another bump of it, or the replacement of the copy by a rebuild, is due,
no check accepts a token under an epoch below one that was written through for its number before. -/
theorem bumped_tokens_stay_out (cfg : Config) (verify : Verify) {db : Db} {now : Time} {w : World}
    (hrun : Run (handler cfg verify) BumpsWait (.fresh db (.initial now)) w) :
    ∀ pass ∈ w.shared.ext.epochPasses, ∀ b ∈ pass.bumps, b.uin = pass.token.uin →
      b.epoch ≤ pass.token.epoch :=
  (Epochs.inv_of_bumpsWait hrun).passes trivial

/-- The phone's token before the number changes hands. -/
abbrev firstOwner : Token := issueToken 1000 1 0 (some 9)

/-- The number changes hands, and its new owner logs in. -/
def handedOver : List (Action Request) :=
  .start (Request.login 1 (some 9)) :: steps 0 10 ++ .start (Request.check firstOwner) :: steps 1 10 ++
    .start (Request.burn 1) :: steps 2 10 ++ .start Request.background :: steps 3 10 ++
    .start (Request.check firstOwner) :: steps 4 10 ++ .start (Request.login 1 none) :: steps 5 10 ++
    .start (Request.check (issueToken 1000 1 1 none)) :: steps 6 10

theorem bumped_tokens_stay_out_handed_over :
    let w := (fresh emptyDb (.initial 1000) : World).play (handler defaults noProofs) handedOver
    w.answer? 1 = some (.account 1) ∧ w.answer? 4 = none ∧ w.answer? 6 = some (.account 1) ∧
      w.shared.ext.bumps = [⟨1, 1⟩] ∧
      ∀ pass ∈ w.shared.ext.epochPasses, ∀ b ∈ pass.bumps, b.uin = pass.token.uin →
        b.epoch ≤ pass.token.epoch := by
  intro w
  have hrun : Run (handler defaults noProofs) BumpsWait (fresh emptyDb (.initial 1000)) w :=
    .of_play _ (by decide +kernel)
  exact ⟨by decide +kernel, by decide +kernel, by decide +kernel, by decide +kernel,
    bumped_tokens_stay_out defaults noProofs hrun⟩

/-- A rebuild has read the table; the number changes hands; the rebuild replaces the copy. -/
def staleRebuild : List (Action Request) :=
  .start (Request.login 1 (some 9)) :: steps 0 10 ++ .start (Request.tick 301) :: steps 1 3 ++
    .start Request.background :: steps 2 2 ++ .start (Request.burn 1) :: steps 3 10 ++ steps 2 5 ++
    .start (Request.check firstOwner) :: steps 4 10

/-- The bump is committed and written through, and the old owner's token is accepted after it. -/
theorem stale_rebuild_lets_old_tokens_in :
    let w := (fresh emptyDb (.initial 1000) : World).play (handler defaults noProofs)
      staleRebuild
    Run (handler defaults noProofs) (fun _ _ => True) (.fresh emptyDb (.initial 1000)) w ∧
      w.answer? 3 = some .done ∧ w.shared.ext.bumps = [⟨1, 1⟩] ∧ w.shared.db.epochOf 1 = 1 ∧
      firstOwner.epoch < 1 ∧ w.answer? 4 = some (.account 1) ∧
      ∃ pass ∈ w.shared.ext.epochPasses, pass.token = firstOwner ∧ ⟨1, 1⟩ ∈ pass.bumps :=
  ⟨.of_play _ (by decide +kernel), by decide +kernel⟩

end RcqServer.Sessions
