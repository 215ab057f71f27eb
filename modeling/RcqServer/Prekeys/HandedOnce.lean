import RcqServer.Prekeys.Pools

/-!
# No prekey is handed out twice

What keeps a prekey from being handed out twice is its one row: free, or a tombstone.  Nothing in the
schema makes it the only one.  An upload looks for the prekey id first and inserts afterwards, it does
not look for repetitions inside the batch, and the upload of a bundle removes the tombstones of the
pool.  The condition `Careful` says that none of this does harm.

The invariant relates the table to the record of what was handed out: a prekey on record has a row
that says so, for as long as the sweep has to leave it alone.
-/

namespace RcqServer.Prekeys

open ReadCommitted List Outline Table

variable {S : Settings} {s s' : State}

/-- The sweep has to leave the tombstone alone. -/
def OneTimePreKey.withinHorizon (S : Settings) (now : Time) (row : OneTimePreKey) : Bool :=
  row.consumed && row.consumedAt.all fun t => now ≤ t + S.consumedMaxAge

namespace Once

/-! ## The invariant -/

structure Inv (S : Settings) (s : State) : Prop where
  /-- Ids come from the sequence. -/
  drawn : ∀ id row, s.db.prekeys.get id = some row → id < s.ext.nextId
  handedDrawn : ∀ h ∈ s.ext.handed, h.id < s.ext.nextId
  /-- A prekey has one row. -/
  unique : ∀ id id' row row', s.db.prekeys.get id = some row → s.db.prekeys.get id' = some row' →
    row.key = row'.key → id = id'
  /-- The row of a prekey on record is its tombstone. -/
  spent : ∀ h ∈ s.ext.handed, ∀ row, s.db.prekeys.get h.id = some row →
    row.key = h.key ∧ row.consumed ∧ row.consumedAt = some h.time
  /-- A tombstone is on record. -/
  recorded : ∀ id row, s.db.prekeys.get id = some row → row.consumed →
    ∃ t, row.consumedAt = some t ∧ ⟨id, row.key, t⟩ ∈ s.ext.handed
  /-- A tombstone stays for the time of the horizon. -/
  kept : ∀ h ∈ s.ext.handed, h.time + S.consumedMaxAge < s.ext.now ∨
    ∃ row, s.db.prekeys.get h.id = some row
  spaced : s.ext.handed.Pairwise fun later earlier =>
    later.key = earlier.key → earlier.time + S.consumedMaxAge < later.time

/-- What only grows. -/
structure Later (s s' : State) : Prop where
  now : s.ext.now ≤ s'.ext.now
  nextId : s.ext.nextId ≤ s'.ext.nextId
  handed : ∀ h ∈ s.ext.handed, h ∈ s'.ext.handed

/-- Nobody has written the row, or handed out the prekey that it holds. -/
structure Untouched (id : ℕ) (s s' : State) : Prop where
  get_eq : s'.db.prekeys.get id = s.db.prekeys.get id
  handed : ∀ h ∈ s'.ext.handed, h ∈ s.ext.handed ∨
    h.id ≠ id ∧ ∀ row, s.db.prekeys.get id = some row → h.key ≠ row.key

theorem Later.refl (s : State) : Later s s := ⟨le_rfl, le_rfl, fun _ h => h⟩

theorem Later.trans {s₁ s₂ s₃ : State} (h : Later s₁ s₂) (h' : Later s₂ s₃) : Later s₁ s₃ :=
  ⟨h.now.trans h'.now, h.nextId.trans h'.nextId, fun x hx => h'.handed x (h.handed x hx)⟩

theorem Untouched.refl (id : ℕ) (s : State) : Untouched id s s := ⟨rfl, fun _ h => .inl h⟩

variable {id : ℕ} {r : Request} {wiped ids : List ℕ} {new : List Write} {row : OneTimePreKey}
  {w : Write} {db : Db} {pool : Pool}

theorem Untouched.trans {s₁ s₂ s₃ : State} (h : Untouched id s₁ s₂)
    (h' : Untouched id s₂ s₃) : Untouched id s₁ s₃ where
  get_eq := h'.get_eq.trans h.get_eq
  handed := by
    intro x hx
    rcases h'.handed x hx with hold | ⟨hid, hkey⟩
    · exact h.handed x hold
    · exact .inr ⟨hid, fun row hrow => hkey row (h.get_eq.trans hrow)⟩

/-- What is published has no other row, and no tombstone within its horizon is wiped. -/
def Careful (S : Settings) (s : State) : Label → Prop
  | .wipe pool => ∀ r ∈ s.db.prekeys.rows, r.2.pool = pool → r.2.withinHorizon S s.ext.now = false
  | .publish wiped keys => keys.Nodup ∧ ∀ r ∈ s.db.prekeys.rows, r.1 ∉ wiped → r.2.key ∉ keys
  | _ => True

def outline (S : Settings) : Outline Db Ext Write Label Request where
  Inv := Inv S
  Rely _ _ ws s s' := Later s s' ∧ ∀ id ∈ lockedRows Db ws, Untouched id s s'
  Guar _ _ ws s s' := Later s s' ∧
    (∀ id, id ∉ lockedRows Db ws → s'.db.prekeys.get id = s.db.prekeys.get id) ∧
    ∀ h ∈ s'.ext.handed, h ∈ s.ext.handed ∨ h.id ∈ lockedRows Db ws ∧
      ∃ row, s.db.prekeys.get h.id = some row ∧ row.key = h.key
  Start _ _ := True
  Cond _ l s := Careful S s l
  Apart _ _ _ _ := True

theorem coherent : (outline S).Coherent where
  rely_refl _ _ _ s := ⟨.refl s, fun id _ => .refl id s⟩
  rely_trans _ _ _ _ _ _ h h' := ⟨h.1.trans h'.1, fun id hid => (h.2 id hid).trans (h'.2 id hid)⟩
  guar_refl _ _ _ s := ⟨.refl s, fun _ _ => rfl, fun _ h => .inl h⟩
  rely_of_guar := by
    intro r l ws r' l' ws' s s' hinv hstep hlocks _
    obtain ⟨hlater, hget, hhanded⟩ := hstep.guar
    refine ⟨hlater, fun id hid => ⟨hget id (hlocks id hid), fun h hh => ?_⟩⟩
    rcases hhanded h hh with hold | ⟨hlocked, row, hrow, hkey⟩
    · exact .inl hold
    -- the row that was handed out is one that the other session has locked
    have hne : h.id ≠ id := fun heq => hlocks id hid (heq ▸ hlocked)
    refine .inr ⟨hne, fun row' hrow' hkey' => hne ?_⟩
    exact hinv.unique h.id id row row' hrow hrow' (hkey.trans hkey')

/-! ## Deleting and inserting rows -/

/-- The rows may be deleted: none of them is a tombstone within its horizon. -/
def Outdated (S : Settings) (ids : List ℕ) (s : State) : Prop :=
  ∀ id ∈ ids, ∀ row, s.db.prekeys.get id = some row → row.consumed →
    ∃ t, row.consumedAt = some t ∧ t + S.consumedMaxAge < s.ext.now

/-- The ids are new. -/
def Unused (new : List Write) (s : State) : Prop :=
  ∀ w ∈ new, s.db.prekeys.get w.id = none ∧ w.id < s.ext.nextId ∧
    ∀ h ∈ s.ext.handed, h.id ≠ w.id

/-- The writes of a `DELETE`. -/
def deletes (ids : List ℕ) : List Write := ids.map fun id => ⟨id, none⟩

theorem mem_deletes : w ∈ deletes ids ↔ w.id ∈ ids ∧ w.row = none := by
  simp only [deletes, mem_map]
  constructor
  · rintro ⟨id, hid, rfl⟩
    exact ⟨hid, rfl⟩
  · intro h
    exact ⟨w.id, h.1, by rw [← h.2]⟩

theorem mem_locked :
    id ∈ lockedRows Db (deletes wiped ++ new) ↔ id ∈ wiped ∨ ∃ w ∈ new, w.id = id := by
  have hdeletes : (deletes wiped).map (Store.key Db) = wiped := by
    rw [deletes, map_map]
    exact map_id wiped
  rw [lockedRows, map_append, mem_append, hdeletes, mem_map]
  rfl

theorem Outdated.later (h : Outdated S ids s) (hlater : Later s s')
    (hget : ∀ id ∈ ids, Untouched id s s') : Outdated S ids s' := by
  intro id hid row hrow hconsumed
  obtain ⟨t, ht, hlt⟩ := h id hid row ((hget id hid).get_eq ▸ hrow) hconsumed
  exact ⟨t, ht, hlt.trans_le hlater.now⟩

theorem Unused.later (h : Unused new s) (hlater : Later s s')
    (hget : ∀ w ∈ new, Untouched w.id s s') : Unused new s' := by
  intro w hw
  obtain ⟨hnone, hlt, hhanded⟩ := h w hw
  refine ⟨(hget w hw).get_eq.trans hnone, hlt.trans_le hlater.nextId, fun x hx => ?_⟩
  exact ((hget w hw).handed x hx).elim (hhanded x) And.left

/-- A row after rows were deleted and others inserted. -/
theorem get_replaced (h : (applyAll (deletes wiped ++ new) db).prekeys.get id = some row) :
    (db.prekeys.get id = some row ∧ id ∉ wiped) ∨ ⟨id, some row⟩ ∈ new := by
  have hnew : (⟨id, some row⟩ : Write) ∈ deletes wiped ++ new → ⟨id, some row⟩ ∈ new := by
    intro hmem
    rcases mem_append.mp hmem with hdel | hnew
    · exact absurd (mem_deletes.mp hdel).2 (Option.some_ne_none row)
    · exact hnew
  rcases sets_prekeys.get_applyAll (deletes wiped ++ new) db id with hsame | hmem
  · by_cases hwiped : id ∈ wiped
    · have hdel : (⟨id, none⟩ : Write) ∈ deletes wiped ++ new :=
        mem_append_left _ (mem_deletes.mpr ⟨hwiped, rfl⟩)
      have hmem := sets_prekeys.get_applyAll_of_mem hdel db
      rw [h] at hmem
      exact .inr (hnew hmem)
    · exact .inl ⟨hsame ▸ h, hwiped⟩
  · rw [h] at hmem
    exact .inr (hnew hmem)

theorem get_replaced_of_notMem (hwiped : id ∉ wiped) (hnew : ∀ w ∈ new, w.id ≠ id) :
    (applyAll (deletes wiped ++ new) db).prekeys.get id = db.prekeys.get id := by
  refine sets_prekeys.get_applyAll_of_notMem (fun row hmem => ?_) db
  rcases mem_append.mp hmem with hdel | hmem
  · exact hwiped (mem_deletes.mp hdel).1
  · exact hnew _ hmem rfl

/-- Free rows of distinct prekeys take the place of outdated ones. -/
theorem Inv.replace (hinv : Inv S s) (keys : List Key)
    (hwiped : Outdated S wiped s) (hunused : Unused new s)
    (hfree : ∀ id row, ⟨id, some row⟩ ∈ new → row.consumed = false ∧ row.key ∈ keys)
    (hinj : ∀ id id' row row', ⟨id, some row⟩ ∈ new → ⟨id', some row'⟩ ∈ new →
      row.key = row'.key → id = id')
    (hapart : ∀ id row, s.db.prekeys.get id = some row → id ∉ wiped → row.key ∉ keys) :
    Inv S (s.commit (deletes wiped ++ new) s.ext) where
  drawn := by
    intro id row hrow
    rcases get_replaced hrow with ⟨hold, -⟩ | hnew
    · exact hinv.drawn id row hold
    · exact (hunused _ hnew).2.1
  handedDrawn := hinv.handedDrawn
  unique := by
    intro id id' row row' hrow hrow' hkey
    rcases get_replaced hrow with ⟨hold, hnot⟩ | hnew
    · rcases get_replaced hrow' with ⟨hold', -⟩ | hnew'
      · exact hinv.unique id id' row row' hold hold' hkey
      · exact absurd (hkey ▸ (hfree id' row' hnew').2) (hapart id row hold hnot)
    · rcases get_replaced hrow' with ⟨hold', hnot'⟩ | hnew'
      · exact absurd (hkey ▸ (hfree id row hnew).2) (hapart id' row' hold' hnot')
      · exact hinj id id' row row' hnew hnew' hkey
  spent := by
    intro h hh row hrow
    rcases get_replaced hrow with ⟨hold, -⟩ | hnew
    · exact hinv.spent h hh row hold
    · exact absurd rfl ((hunused _ hnew).2.2 h hh)
  recorded := by
    intro id row hrow hconsumed
    rcases get_replaced hrow with ⟨hold, -⟩ | hnew
    · exact hinv.recorded id row hold hconsumed
    · rw [(hfree id row hnew).1] at hconsumed
      exact absurd hconsumed Bool.false_ne_true
  kept := by
    intro h hh
    rcases hinv.kept h hh with hout | ⟨row, hrow⟩
    · exact .inl hout
    by_cases hdel : h.id ∈ wiped
    · -- a tombstone that goes is past its horizon
      obtain ⟨-, hconsumed, hat⟩ := hinv.spent h hh row hrow
      obtain ⟨t, ht, hlt⟩ := hwiped h.id hdel row hrow hconsumed
      obtain rfl : h.time = t := Option.some.inj (hat.symm.trans ht)
      exact .inl hlt
    · refine .inr ⟨row, ?_⟩
      rw [Shared.commit_db, Shared.view, get_replaced_of_notMem hdel]
      · exact hrow
      · exact fun w hw heq => (hunused w hw).2.2 h hh heq.symm
  spaced := hinv.spaced

/-! ## Publishing -/

theorem mem_newRows {batch : List PreKeyIn} {next : ℕ} (h : w ∈ newRows pool next batch) :
    next ≤ w.id ∧ w.id < next + batch.length ∧ ∃ pk ∈ batch, w.row = some ⟨pool, pk, false, none⟩ := by
  induction batch generalizing next with
  | nil => exact absurd h not_mem_nil
  | cons pk batch ih =>
    rw [length_cons]
    rcases mem_cons.mp h with rfl | h
    · exact ⟨le_rfl, by simp, pk, mem_cons_self, rfl⟩
    · obtain ⟨hle, hlt, pk', hmem, hrow⟩ := ih h
      exact ⟨by omega, by omega, pk', mem_cons_of_mem _ hmem, hrow⟩

theorem newRows_inj {batch : List PreKeyIn} (hnodup : batch.Nodup) {next : ℕ}
    {w' : Write} (hw : w ∈ newRows pool next batch) (hw' : w' ∈ newRows pool next batch)
    (hrow : w.row = w'.row) : w.id = w'.id := by
  induction batch generalizing next with
  | nil => exact absurd hw not_mem_nil
  | cons pk batch ih =>
    rw [nodup_cons] at hnodup
    -- a later row does not hold the first prekey
    have hlater : ∀ v ∈ newRows pool (next + 1) batch, v.row ≠ some ⟨pool, pk, false, none⟩ := by
      intro v hv heq
      obtain ⟨-, -, pk', hmem, hrow'⟩ := mem_newRows hv
      obtain ⟨-, rfl⟩ : pool = pool ∧ pk = pk' := by simpa using heq.symm.trans hrow'
      exact hnodup.1 hmem
    rcases mem_cons.mp hw with rfl | hw
    · rcases mem_cons.mp hw' with rfl | hw'
      · rfl
      · exact absurd hrow.symm (hlater w' hw')
    · rcases mem_cons.mp hw' with rfl | hw'
      · exact absurd hrow (hlater w hw)
      · exact ih hnodup.2 hw hw'

theorem publish_safe (pool : Pool) (batch : List PreKeyIn) (h : Outdated S wiped s) :
    (outline S).Safe r (publish wiped pool batch) (deletes wiped) s := by
  refine wp_seq (Q := fun _ ws (s : State) => ∃ next,
    ws = deletes wiped ++ newRows pool next batch ∧ Outdated S wiped s ∧
      Unused (newRows pool next batch) s) ?_ ?_
  · intro s₁ hrely hinv _
    have hout : Outdated S wiped s₁ := by
      refine h.later hrely.1 fun id hid => hrely.2 id ?_
      rw [← append_nil (deletes wiped)]
      exact mem_locked.mpr (.inl hid)
    have hlater : Later s₁ (s₁.tell { s₁.ext with nextId := s₁.ext.nextId + batch.length }) :=
      ⟨le_rfl, Nat.le_add_right _ _, fun _ h => h⟩
    have hgrown : Inv S (s₁.tell { s₁.ext with nextId := s₁.ext.nextId + batch.length }) :=
      { hinv with
        drawn := fun id row hrow => (hinv.drawn id row hrow).trans_le hlater.nextId
        handedDrawn := fun x hx => (hinv.handedDrawn x hx).trans_le hlater.nextId }
    refine ⟨⟨hgrown, hlater, fun _ _ => rfl, fun _ hx => .inl hx⟩, ?_⟩
    refine ⟨s₁.ext.nextId, rfl, hout, fun w hw => ?_⟩
    obtain ⟨hle, hlt, -⟩ := mem_newRows hw
    refine ⟨?_, hlt, fun x hx heq => ?_⟩
    · cases hget : s₁.db.prekeys.get w.id with
      | none => exact hget
      | some row => exact absurd (hinv.drawn w.id row hget) hle.not_gt
    · exact absurd (heq ▸ hinv.handedDrawn x hx) hle.not_gt
  · rintro _ ws s₁ ⟨next, rfl, hout, hunused⟩
    intro s₂ hrely hinv hcond
    have hdel : ∀ id ∈ wiped, Untouched id s₁ s₂ :=
      fun id hid => hrely.2 id (mem_locked.mpr (.inl hid))
    have hins : ∀ w ∈ newRows pool next batch, Untouched w.id s₁ s₂ :=
      fun w hw => hrely.2 w.id (mem_locked.mpr (.inr ⟨w, hw, rfl⟩))
    have hkeys : batch.Nodup := hcond.1.of_map _
    have hrows : ∀ id row, (⟨id, some row⟩ : Write) ∈ newRows pool next batch →
        ∃ pk ∈ batch, row = ⟨pool, pk, false, none⟩ := by
      intro id row hmem
      obtain ⟨-, -, pk, hpk, heq⟩ := mem_newRows hmem
      exact ⟨pk, hpk, Option.some.inj heq⟩
    refine ⟨⟨?_, ?_⟩, trivial⟩
    · refine hinv.replace (batch.map (pool, ·)) (hout.later hrely.1 hdel)
        (hunused.later hrely.1 hins) ?_ ?_ ?_
      · intro id row hmem
        obtain ⟨pk, hpk, rfl⟩ := hrows id row hmem
        exact ⟨rfl, mem_map_of_mem hpk⟩
      · intro id id' row row' hmem hmem' hkey
        obtain ⟨pk, -, rfl⟩ := hrows id row hmem
        obtain ⟨pk', -, rfl⟩ := hrows id' row' hmem'
        obtain rfl : pk = pk' := congrArg Prod.snd hkey
        exact newRows_inj hkeys hmem hmem' rfl
      · exact fun id row hrow hnot => hcond.2 (id, row) (mem_rows.mpr hrow) hnot
    · refine ⟨⟨le_rfl, le_rfl, fun _ h => h⟩, fun id hid => ?_, fun _ h => .inl h⟩
      rw [mem_locked, not_or] at hid
      exact get_replaced_of_notMem hid.1 fun w hw heq => hid.2 ⟨w, hw, heq⟩

theorem wipe_safe (pool : Pool) : (outline S).wp r (wipe pool)
      (fun wiped ws s => ws = deletes wiped ∧ Outdated S wiped s) [] s := by
  refine wp_write coherent fun s₁ _ _ hcond => ⟨?_, ?_⟩
  · simp [deletes, Function.comp_def]
  · intro id hid row hrow hconsumed
    obtain ⟨⟨id', row'⟩, hmem, rfl⟩ := mem_map.mp hid
    obtain ⟨hrow', hpool⟩ := mem_select.mp hmem
    obtain rfl : row' = row := Option.some.inj (hrow'.symm.trans hrow)
    have hpast := hcond (id', row') (mem_rows.mpr hrow') (beq_iff_eq.mp hpool)
    rw [OneTimePreKey.withinHorizon, hconsumed, Bool.true_and] at hpast
    cases hat : row'.consumedAt with
    | none =>
      rw [hat] at hpast
      exact absurd hpast.symm Bool.false_ne_true
    | some t =>
      refine ⟨t, rfl, ?_⟩
      simpa [hat] using hpast

theorem replenish_safe (pool : Pool) (batch : List PreKeyIn) :
    (outline S).Safe r (replenish pool batch) [] s := by
  refine wp_read_bind coherent fun s₁ _ _ _ => ?_
  have hout : Outdated S [] s₁ := fun id hid => absurd hid not_mem_nil
  exact publish_safe pool _ hout

/-! ## Handing out -/

theorem get_of_nextFree {locked : List ℕ} (h : db.nextFree pool locked = some (id, row)) :
    db.prekeys.get id = some row ∧ row.consumed = false := by
  obtain ⟨hget, hfree⟩ := mem_select.mp (mem_of_find?_eq_some h)
  simp only [Bool.and_eq_true, Bool.not_eq_true'] at hfree
  exact ⟨hget, hfree.1.2⟩

/-- A prekey with a free row was not handed out within the horizon. -/
theorem Inv.time_lt_of_free (hinv : Inv S s)
    (hrow : s.db.prekeys.get id = some row) (hfree : row.consumed = false) {h : Handed}
    (hh : h ∈ s.ext.handed) (hkey : h.key = row.key) : h.time + S.consumedMaxAge < s.ext.now := by
  rcases hinv.kept h hh with hlt | ⟨row', hrow'⟩
  · exact hlt
  · obtain ⟨hkey', hconsumed, -⟩ := hinv.spent h hh row' hrow'
    obtain rfl : h.id = id := hinv.unique _ _ row' row hrow' hrow (hkey'.trans hkey)
    obtain rfl : row' = row := Option.some.inj (hrow'.symm.trans hrow)
    rw [hfree] at hconsumed
    exact absurd hconsumed Bool.false_ne_true

theorem Inv.handOut (hinv : Inv S s) {t : Time}
    (hrow : s.db.prekeys.get id = some row) (hfree : row.consumed = false)
    (hspaced : ∀ h ∈ s.ext.handed, h.key = row.key → h.time + S.consumedMaxAge < t) :
    Inv S (s.commit [(⟨id, some (row.consume t)⟩ : Write)]
      { s.ext with handed := ⟨id, row.key, t⟩ :: s.ext.handed }) := by
  -- before, each row had the same prekey
  have hbefore : ∀ k v, (s.db.prekeys.set id (some (row.consume t))).get k = some v →
      ∃ v', s.db.prekeys.get k = some v' ∧ v'.key = v.key := by
    intro k v hget
    rcases get_set_some hget with ⟨rfl, rfl⟩ | ⟨-, hold⟩
    · exact ⟨row, hrow, rfl⟩
    · exact ⟨v, hold, rfl⟩
  have hother : ∀ h ∈ s.ext.handed, h.id ≠ id := by
    rintro h hh rfl
    obtain ⟨-, hconsumed, -⟩ := hinv.spent h hh row hrow
    rw [hfree] at hconsumed
    exact absurd hconsumed Bool.false_ne_true
  exact
    { drawn := by
        intro k v hget
        obtain ⟨v', hold, -⟩ := hbefore k v hget
        exact hinv.drawn k v' hold
      handedDrawn := forall_mem_cons.mpr ⟨hinv.drawn id row hrow, hinv.handedDrawn⟩
      unique := by
        intro k k' v v' hget hget' hkey
        obtain ⟨u, hold, hu⟩ := hbefore k v hget
        obtain ⟨u', hold', hu'⟩ := hbefore k' v' hget'
        exact hinv.unique k k' u u' hold hold' ((hu.trans hkey).trans hu'.symm)
      spent := by
        intro h hh v hget
        rcases mem_cons.mp hh with rfl | hh
        · rcases get_set_some hget with ⟨-, rfl⟩ | ⟨hne, -⟩
          · exact ⟨rfl, rfl, rfl⟩
          · exact absurd rfl hne
        · rcases get_set_some hget with ⟨heq, -⟩ | ⟨-, hold⟩
          · exact absurd heq (hother h hh)
          · exact hinv.spent h hh v hold
      recorded := by
        intro k v hget hconsumed
        rcases get_set_some hget with ⟨rfl, rfl⟩ | ⟨-, hold⟩
        · exact ⟨t, rfl, mem_cons_self⟩
        · obtain ⟨t', ht', hmem⟩ := hinv.recorded k v hold hconsumed
          exact ⟨t', ht', mem_cons_of_mem _ hmem⟩
      kept := by
        intro h hh
        rcases mem_cons.mp hh with rfl | hh
        · exact .inr ⟨_, get_set_self _ _ _⟩
        · refine (hinv.kept h hh).imp_right fun ⟨v, hold⟩ => ⟨v, ?_⟩
          exact (get_set_ne _ (hother h hh) _).trans hold
      spaced := pairwise_cons.mpr ⟨fun h hh hkey => hspaced h hh hkey.symm, hinv.spaced⟩ }

theorem handOut_safe (pool : Pool) (mayTakeOpk : Except HttpError Bool) (locked : List ℕ) :
    (outline S).Safe r (handOut pool mayTakeOpk locked) [] s := by
  unfold handOut
  cases mayTakeOpk with
  | error e => exact trivial
  | ok withOpk =>
    cases withOpk with
    | false => exact trivial
    | true =>
      refine wp_seq (Q := fun opk ws (s : State) => ∀ id consumed,
        opk = some (id, consumed) → ∃ row t, consumed = row.consume t ∧
          ws = [⟨id, some consumed⟩] ∧ s.db.prekeys.get id = some row ∧ row.consumed = false ∧
          ∀ h ∈ s.ext.handed, h.key = row.key → h.time + S.consumedMaxAge < t) ?_ ?_
      · refine wp_write coherent fun s₁ _ hinv _ => ?_
        intro id consumed hclaim
        obtain ⟨⟨id', row⟩, hnext, heq⟩ := Option.map_eq_some_iff.mp hclaim
        cases heq
        obtain ⟨hrow, hfree⟩ := get_of_nextFree hnext
        refine ⟨row, s₁.ext.now, rfl, ?_, hrow, hfree, ?_⟩
        · rw [hnext]
          rfl
        · exact fun h hh hkey => hinv.time_lt_of_free hrow hfree hh hkey
      · rintro (_ | ⟨id, consumed⟩) ws s₁ hclaim
        · exact trivial
        obtain ⟨row, t, rfl, rfl, hrow, hfree, hspaced⟩ := hclaim id consumed rfl
        intro s₂ hrely hinv _
        have hsame : Untouched id s₁ s₂ := hrely.2 id mem_cons_self
        have hrow₂ : s₂.db.prekeys.get id = some row := hsame.get_eq.trans hrow
        refine ⟨⟨?_, ?_⟩, trivial⟩
        · refine hinv.handOut hrow₂ hfree fun h hh hkey => ?_
          rcases hsame.handed h hh with hold | ⟨-, hne⟩
          · exact hspaced h hold hkey
          · exact absurd hkey (hne row hrow)
        · refine ⟨⟨le_rfl, le_rfl, fun h hh => mem_cons_of_mem _ hh⟩, fun k hk => ?_, ?_⟩
          · have hne : k ≠ id := fun heq => hk (mem_singleton.mpr heq)
            exact get_set_ne _ hne _
          · intro h hh
            rcases mem_cons.mp hh with rfl | hh
            · exact .inr ⟨mem_cons_self, row, hrow₂, rfl⟩
            · exact .inl hh

theorem primaryBundle_safe (uin : Uin) (l : Lookup) (locked : List ℕ) :
    (outline S).Safe r (primaryBundle uin l locked) [] s :=
  wp_raiseIf_bind fun _ => wp_raiseIf_bind fun _ => handOut_safe _ _ _

/-! ## The sweep -/

/-- Every tombstone has its `consumed_at`. -/
theorem Inv.unstamped_eq_nil (hinv : Inv S s) : s.db.unstamped = [] := by
  rw [eq_nil_iff_forall_not_mem]
  rintro ⟨id, row⟩ hmem
  obtain ⟨hrow, hstamp⟩ := mem_select.mp hmem
  rw [Bool.and_eq_true] at hstamp
  obtain ⟨t, ht, -⟩ := hinv.recorded id row hrow hstamp.1
  rw [ht] at hstamp
  exact absurd hstamp.2 Bool.false_ne_true

/-- The rows were handed out, so long ago that their tombstones may go. -/
def LongHanded (S : Settings) (ids : List ℕ) (s : State) : Prop :=
  ∀ id ∈ ids, ∃ h ∈ s.ext.handed, h.id = id ∧ h.time + S.consumedMaxAge < s.ext.now

theorem LongHanded.later (h : LongHanded S ids s) (hlater : Later s s') : LongHanded S ids s' := by
  intro id hid
  obtain ⟨x, hx, heq, hlt⟩ := h id hid
  exact ⟨x, hlater.handed x hx, heq, hlt.trans_le hlater.now⟩

theorem LongHanded.outdated (h : LongHanded S ids s) (hinv : Inv S s) : Outdated S ids s := by
  intro id hid row hrow _
  obtain ⟨x, hx, rfl, hlt⟩ := h id hid
  exact ⟨x.time, (hinv.spent x hx row hrow).2.2, hlt⟩

theorem longHanded_of_expired (hinv : Inv S s) {cutoff : ℤ}
    (hcutoff : cutoff ≤ (s.ext.now : ℤ) - S.consumedMaxAge) (n : ℕ) :
    LongHanded S (((s.db.expired cutoff).map Prod.fst).take n) s := by
  intro id hid
  obtain ⟨⟨id', row⟩, hmem, rfl⟩ := mem_map.mp (mem_of_mem_take hid)
  obtain ⟨hrow, hexpired⟩ := mem_select.mp hmem
  rw [Bool.and_eq_true] at hexpired
  obtain ⟨t, ht, hrecord⟩ := hinv.recorded id' row hrow hexpired.1
  have hlt : (t : ℤ) < cutoff := by simpa [ht] using hexpired.2
  have hpast : (t : ℤ) + S.consumedMaxAge < s.ext.now :=
    Int.add_lt_of_lt_sub_right (lt_of_lt_of_le hlt hcutoff)
  exact ⟨_, hrecord, rfl, by exact_mod_cast hpast⟩

theorem sweepOnce_safe : (outline S).Safe r (sweepOnce S) [] s := by
  refine wp_read_bind coherent fun s₁ _ _ _ => ?_
  change (outline S).wp r (if S.dryRun = true then _ else _) _ _ _
  split
  · exact wp_read coherent fun _ _ _ _ => trivial
  -- there is nothing to stamp, so that nothing is pending
  refine wp_write_bind coherent fun s₂ hrely₂ hinv₂ _ => ?_
  rw [Shared.view_nil, hinv₂.unstamped_eq_nil]
  refine wp_read_bind coherent fun s₃ hrely₃ hinv₃ _ => ?_
  have hnow := hrely₂.1.now.trans hrely₃.1.now
  have hids := longHanded_of_expired hinv₃ (Int.sub_le_sub_right (Int.ofNat_le.mpr hnow) _)
    S.maxDeletionsPerCycle
  split
  · exact trivial
  refine wp_seq (Q := fun _ ws s => ∃ gone, ws = deletes gone ∧ LongHanded S gone s) ?_ ?_
  · refine wp_write coherent fun s₄ hrely _ _ => ⟨_, rfl, ?_⟩
    exact fun id hid => hids.later hrely.1 id (mem_filter.mp hid).1
  rintro n ws s₄ ⟨gone, rfl, hgone⟩ s₅ hrely hinv _
  refine ⟨⟨?_, ⟨le_rfl, le_rfl, fun _ h => h⟩, ?_, fun _ h => .inl h⟩, trivial⟩
  · have hout := (hgone.later hrely.1).outdated hinv
    have hnone : ∀ w : Write, w ∉ [] := fun _ => not_mem_nil
    rw [← append_nil (deletes gone)]
    refine hinv.replace [] hout (fun w hw => absurd hw (hnone w)) ?_ ?_ ?_
    · exact fun _ _ hw => absurd hw (hnone _)
    · exact fun _ _ _ _ hw => absurd hw (hnone _)
    · exact fun _ _ _ _ => not_mem_nil
  · intro id hid
    rw [← append_nil (deletes gone)] at hid ⊢
    rw [mem_locked, not_or] at hid
    exact get_replaced_of_notMem hid.1 fun w hw => absurd hw not_mem_nil

theorem tick_safe (seconds : ℕ) :
    (outline S).wp r (.effect .tick fun _ e => { e with now := e.now + seconds } : Handler Unit)
      (fun _ _ _ => True) [] s := by
  refine wp_effect fun s₁ _ hinv _ => ⟨⟨?_, ⟨?_, le_rfl, fun _ h => h⟩, ?_, ?_⟩, trivial⟩
  · exact
      { hinv with
        kept := fun h hh => (hinv.kept h hh).imp_left fun hlt => hlt.trans_le (Nat.le_add_right _ _) }
  · exact Nat.le_add_right _ _
  · exact fun _ _ => rfl
  · exact fun _ h => .inl h

theorem handler_safe (r : Request) (s : State) : (outline S).Safe r (handler S r) [] s := by
  have hnone : Outdated S [] s := fun id hid => absurd hid not_mem_nil
  cases r with
  | uploadBundle uin known batch =>
    refine safe_map (wp_raiseIf_bind fun _ => ?_) fun _ => Answer.noContent
    refine wp_seq (wipe_safe _) ?_
    rintro wiped ws s₁ ⟨rfl, hout⟩
    exact publish_safe _ _ hout
  | replenishPrekeys uin batch => exact safe_map (replenish_safe _ _) fun _ => Answer.noContent
  | replenishDevicePrekeys uin device owned batch =>
    refine safe_map ?_ fun _ => Answer.noContent
    exact wp_raiseIf_bind fun _ => replenish_safe _ _
  | registerDevice uin known existing batch =>
    refine safe_map ?_ Answer.device
    exact wp_raiseIf_bind fun _ => wp_raiseIf_bind fun _ =>
      safe_map (publish_safe _ _ hnone) _
  | fetchBundle uin l locked =>
    refine safe_map ?_ Answer.bundle
    exact wp_raiseIf_bind fun _ => wp_raiseIf_bind fun _ =>
      wp_raiseIf_bind fun _ => primaryBundle_safe _ _ _
  | fetchDeviceBundle uin device l locked =>
    refine safe_map (wp_raiseIf_bind fun _ => ?_) Answer.bundle
    change (outline S).wp _ (if device = primaryDeviceId then _ else _) _ _ _
    split
    · exact primaryBundle_safe _ _ _
    · exact wp_raiseIf_bind fun _ => handOut_safe _ _ _
  | sweep => exact safe_map sweepOnce_safe _
  | tick seconds => exact safe_map (tick_safe seconds) fun _ => Answer.done

end Once

/-! ## Runs -/

/-- Whenever an upload commits, the prekeys that it adds are pairwise different and no row that it has
not deleted itself holds one of them; and the upload of a bundle wipes no tombstone within the
horizon. -/
def Careful (S : Settings) (w : World) : Action Request → Prop
  | .step n => ∀ x ∈ w.upcoming n, Once.Careful S w.shared x.2
  | _ => True

/-- **A prekey is handed out once.**  In every run of uploads, fetches and sweeps, however their
statements interleave, in which uploads are careful: if the same prekey was handed out twice, the
second time was after the horizon of the sweep. -/
theorem prekey_handed_once {S : Settings} {now : Time} {w : World}
    (hrun : World.Run (handler S) (Careful S) (World.initial now) w) :
    w.shared.ext.handed.Pairwise fun later earlier =>
      later.key = earlier.key → earlier.time + S.consumedMaxAge < later.time := by
  have hinit : Once.Inv S (World.initial now).shared :=
    { drawn := nofun
      handedDrawn := nofun
      unique := nofun
      spent := nofun
      recorded := nofun
      kept := nofun
      spaced := Pairwise.nil }
  have hallows : ∀ (w : World) x, Careful S w x → (Once.outline S).Allows w x :=
    allows_of_upcoming (fun _ _ => trivial) (fun _ _ _ _ => trivial) fun _ _ h => h
  exact (inv_of_run Once.coherent (fun r s _ _ => Once.handler_safe r s) hinit
    (hrun.mono hallows)).spaced

section Example

instance (S : Settings) : DecidableRel (Once.Careful S) := by
  rintro s (_ | _) <;> unfold Once.Careful <;> infer_instance

instance (S : Settings) : DecidableRel (Careful S) := by
  rintro w (_ | _) <;> unfold Careful <;> infer_instance

/-- The defaults. -/
def defaults : Settings := ⟨days 37, 50000, false⟩

/-- A caller with a session fetches the bundle of account 1. -/
def fetch : Request := .fetchBundle 1 ⟨true, true, false, true, false, .ok true⟩ []

/-- Two prekeys. -/
def seven : PreKeyIn := ⟨7, "BXNl".toList⟩

def eight : PreKeyIn := ⟨8, "BWVp".toList⟩

/-- A batch is uploaded, one of its prekeys handed out, and the batch uploaded again.  The second time
the prekey is published again the sweep has taken its tombstone. -/
def retriedBatch : List (Action Request) :=
  .start (Request.replenishPrekeys 1 [seven, eight]) :: steps 0 4 ++ .start fetch :: steps 1 3 ++
    .start (Request.replenishPrekeys 1 [seven, eight]) :: steps 2 4 ++ .start fetch :: steps 3 3 ++
    .start fetch :: steps 4 3 ++ .start (Request.tick (days 40)) :: steps 5 2 ++
    .start Request.sweep :: steps 6 6 ++ .start (Request.replenishPrekeys 1 [seven]) :: steps 7 4 ++
    .start fetch :: steps 8 3

theorem prekey_handed_once_retried :
    let w := (World.initial 0).play (handler defaults) retriedBatch
    w.answer? 1 = some (.bundle (some seven)) ∧ w.answer? 3 = some (.bundle (some eight)) ∧
      w.answer? 4 = some (.bundle none) ∧ w.answer? 6 = some (.swept 2) ∧
      w.answer? 8 = some (.bundle (some seven)) ∧
      w.shared.ext.handed.Pairwise fun later earlier =>
        later.key = earlier.key → earlier.time + defaults.consumedMaxAge < later.time :=
  ⟨by decide +kernel, by decide +kernel, by decide +kernel, by decide +kernel, by decide +kernel,
    prekey_handed_once (.of_play retriedBatch (by decide +kernel))⟩

/-- A batch names the same prekey twice. -/
def repeatedPrekey : List (Action Request) :=
  .start (Request.replenishPrekeys 1 [seven, seven]) :: steps 0 4 ++ .start fetch :: steps 1 3 ++
    .start fetch :: steps 2 3

theorem repeated_prekey_handed_twice :
    let w := (World.initial 0).play (handler defaults) repeatedPrekey
    World.Run (handler defaults) (fun _ _ => True) (World.initial 0) w ∧
      w.answer? 1 = some (.bundle (some seven)) ∧ w.answer? 2 = some (.bundle (some seven)) ∧
      ¬w.shared.ext.handed.Pairwise fun later earlier =>
        later.key = earlier.key → earlier.time + defaults.consumedMaxAge < later.time :=
  ⟨.of_play repeatedPrekey (by decide +kernel), by decide +kernel⟩

end Example

end RcqServer.Prekeys
