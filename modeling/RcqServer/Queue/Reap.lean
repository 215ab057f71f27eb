import RcqServer.Queue.Drains

/-!
# The reap

`_reap_below_min` reads the account's cursors once and then, in later statements, drops the stale
ones and deletes the rows below the least mark of the others.  Installs may appear, and marks may
move, after the read.  `Snapshot` says why the deletes are right nevertheless: whoever a row is
owed to is in the list with a mark that speaks for the row, or the row is newer than every mark
in the list, or the install loses its cursor in the same transaction.
-/

namespace RcqServer.Queue

open ReadCommitted Messages Outline List

variable {ax : Axis} {lane : Lane} {r : Request} {s s' : State} {u : Uin} {D : DeviceId}
  {B : ℕ → Prop} {ws : List Write}

theorem mem_cursorsOf {db : Db} {k : Uin × DeviceId} {c : QueueCursor} :
    (k, c) ∈ db.cursorsOf u ↔ db.queueCursors.get k = some c ∧ k.1 = u := by
  simp [Db.cursorsOf]

structure Snapshot (ax : Axis) (lane : Lane) (B : ℕ → Prop) (u : Uin) (D : DeviceId)
    (cs : List ((Uin × DeviceId) × QueueCursor)) (ws : List Write) (s : State) : Prop where
  bounded : ∀ row ∈ cs, Bounded ax s u (row.2.mark ax)
  owed : ∀ D' id, Owed ax lane s u D' id →
    (∃ c, ((u, D'), c) ∈ cs ∧ (id ≤ c.mark ax → Cleared ax B u D ws s D' id)) ∨
    (∀ row ∈ cs, row.2.mark ax < id) ∨ Dropped ws u D'

theorem Snapshot.mono {cs : List ((Uin × DeviceId) × QueueCursor)}
    (h : Snapshot ax lane B u D cs ws s) (hgrows : Grows ax lane s s') (hinv : Inv ax lane s') :
    Snapshot ax lane B u D cs ws s' := by
  refine ⟨fun row hrow => (h.bounded row hrow).mono (hgrows.ever u), fun D' id howed => ?_⟩
  rcases hgrows.owed u D' id howed with hold | hnew
  · rcases h.owed D' id hold with ⟨c, hmem, hcleared⟩ | hrest
    · exact .inl ⟨c, hmem, fun hle => (hcleared hle).mono hgrows⟩
    · exact .inr hrest
  · -- a row that appeared since the read is newer than every mark that was read
    exact .inr (.inl fun row hrow =>
      (h.bounded row hrow).lt_of_fresh hgrows hinv howed.ever hnew)

/-- The read of the cursors, while the transaction has deleted none itself. -/
theorem Snapshot.of_read (hinv : Inv ax lane s) (hdrains : Drains ax lane B u D ws s)
    (hkept : ∀ u' D', Write.cursor u' D' none ∉ ws) :
    Snapshot ax lane B u D ((s.view ws).cursorsOf u) ws s := by
  constructor
  · rintro ⟨⟨u', D'⟩, c⟩ hmem
    obtain ⟨hget, rfl⟩ := mem_cursorsOf.mp hmem
    rcases cursor_get_applyAll ws s.db u' D' with hsame | hwrite
    · exact hinv.marks u' D' c (hsame.symm.trans hget)
    · rw [show (applyAll ws s.db).queueCursors.get (u', D') = some c from hget] at hwrite
      exact (hdrains.cursors u' D' c hwrite).2.2.bounded
  · intro D' id howed
    obtain ⟨c₀, hc₀⟩ := howed.hasCursor
    left
    rcases cursor_get_applyAll ws s.db u D' with hsame | hwrite
    · refine ⟨c₀, mem_cursorsOf.mpr ⟨hsame.trans hc₀, rfl⟩, fun hle => .inl ?_⟩
      exact hinv.passed u D' c₀ id hc₀ howed hle
    · cases hget : (applyAll ws s.db).queueCursors.get (u, D') with
      | none =>
        rw [hget] at hwrite
        exact absurd hwrite (hkept u D')
      | some c =>
        rw [hget] at hwrite
        obtain ⟨-, rfl, hpassed⟩ := hdrains.cursors u D' c hwrite
        refine ⟨c, mem_cursorsOf.mpr ⟨hget, rfl⟩, fun hle => ?_⟩
        exact (hpassed.settled id howed hle).imp_right fun hin => .inl ⟨rfl, hin⟩

/-! ## Adding writes -/

section Append

variable {new : List Write} {D' : DeviceId}

theorem Dropped.append (h : Dropped ws u D') (hnew : ∀ c, Write.cursor u D' (some c) ∉ new) :
    Dropped (ws ++ new) u D' := by
  intro db
  rw [applyAll_append]
  rcases cursor_get_applyAll new (applyAll ws db) u D' with hsame | hwrite
  · exact hsame.trans (h db)
  · cases hget : (applyAll new (applyAll ws db)).queueCursors.get (u, D') with
    | none => rfl
    | some c =>
      rw [hget] at hwrite
      exact absurd hwrite (hnew c)

/-- A delete of the cursor that nothing follows. -/
theorem dropped_of_mem (hmem : Write.cursor u D' none ∈ new)
    (hnew : ∀ c, Write.cursor u D' (some c) ∉ new) : Dropped (ws ++ new) u D' := by
  obtain ⟨before, after, rfl⟩ := append_of_mem hmem
  have hdelete : Dropped (ws ++ before ++ [Write.cursor u D' none]) u D' := by
    intro db
    rw [applyAll_concat]
    exact Table.get_set_self _ _ _
  have hafter : Dropped (ws ++ before ++ [Write.cursor u D' none] ++ after) u D' :=
    hdelete.append fun c hc => hnew c (by simp [hc])
  simpa using hafter

theorem Cleared.append {id : ℕ} (h : Cleared ax B u D ws s D' id)
    (hnew : ∀ c, Write.cursor u D' (some c) ∉ new) : Cleared ax B u D (ws ++ new) s D' id :=
  h.imp_right fun h => h.imp_right fun h => h.append hnew

theorem Drains.append (h : Drains ax lane B u D ws s)
    (hcursors : ∀ u D c, Write.cursor u D (some c) ∉ new)
    (hrows : ∀ id row, Write.queued ax id row ∈ new → row = none ∧ Ever ax s u id ∧
      ∀ D', Owed ax lane s u D' id → Cleared ax B u D ws s D' id) :
    Drains ax lane B u D (ws ++ new) s := by
  refine ⟨fun u' D' c hc => ?_, fun id row hrow => ?_⟩
  · exact h.cursors u' D' c ((mem_append.mp hc).resolve_right (hcursors u' D' c))
  · obtain ⟨hnone, hever, hcleared⟩ :=
      (mem_append.mp hrow).elim (h.rows id row) (hrows id row)
    exact ⟨hnone, hever, fun D' howed => (hcleared D' howed).append (hcursors u D')⟩

theorem Snapshot.append {cs : List ((Uin × DeviceId) × QueueCursor)}
    (h : Snapshot ax lane B u D cs ws s) (hcursors : ∀ u D c, Write.cursor u D (some c) ∉ new) :
    Snapshot ax lane B u D cs (ws ++ new) s := by
  refine ⟨h.bounded, fun D' id howed => ?_⟩
  rcases h.owed D' id howed with ⟨c, hmem, hcleared⟩ | hnewer | hdropped
  · exact .inl ⟨c, hmem, fun hle => (hcleared hle).append (hcursors u D')⟩
  · exact .inr (.inl hnewer)
  · exact .inr (.inr (hdropped.append (hcursors u D')))

/-- Entries whose install loses its cursor may be struck from the list. -/
theorem Snapshot.sublist {cs live : List ((Uin × DeviceId) × QueueCursor)}
    (h : Snapshot ax lane B u D cs ws s) (hsub : ∀ row ∈ live, row ∈ cs)
    (hrest : ∀ D' c, ((u, D'), c) ∈ cs → ((u, D'), c) ∉ live → HasCursor s.db u D' →
      Dropped ws u D') : Snapshot ax lane B u D live ws s := by
  refine ⟨fun row hrow => h.bounded row (hsub row hrow), fun D' id howed => ?_⟩
  rcases h.owed D' id howed with ⟨c, hmem, hcleared⟩ | hnewer | hdropped
  · by_cases hlive : ((u, D'), c) ∈ live
    · exact .inl ⟨c, hlive, hcleared⟩
    · exact .inr (.inr (hrest D' c hmem hlive howed.hasCursor))
  · exact .inr (.inl fun row hrow => hnewer row (hsub row hrow))
  · exact .inr (.inr hdropped)

end Append

/-! ## The statements of the reap -/

theorem minMark_le {row : (Uin × DeviceId) × QueueCursor} :
    ∀ {cs : List ((Uin × DeviceId) × QueueCursor)}, row ∈ cs → minMark ax cs ≤ row.2.mark ax
  | [_], hmem => by rw [mem_singleton.mp hmem, minMark]
  | first :: second :: rest, hmem => by
    rw [minMark]
    rcases mem_cons.mp hmem with rfl | hmem
    · exact Nat.min_le_left _ _
    · exact (Nat.min_le_right _ _).trans (minMark_le hmem)
    · simp

/-- What is pending between the statements of the reap: nothing touches the queue `ax` yet. -/
structure Reaping (ax : Axis) (lane : Lane) (B : ℕ → Prop) (u : Uin) (D : DeviceId)
    (cs : List ((Uin × DeviceId) × QueueCursor)) (ws : List Write) (s : State) : Prop where
  drains : Drains ax lane B u D ws s
  snapshot : Snapshot ax lane B u D cs ws s
  untouched : ∀ id row, Write.queued ax id row ∉ ws

section Reaping

variable {cs live : List ((Uin × DeviceId) × QueueCursor)}

theorem Reaping.mono (h : Reaping ax lane B u D cs ws s) (hgrows : Grows ax lane s s')
    (hinv : Inv ax lane s') : Reaping ax lane B u D cs ws s' :=
  ⟨h.drains.mono hgrows hinv, h.snapshot.mono hgrows hinv, h.untouched⟩

/-- A row at or below the least mark is cleared for everybody. -/
theorem Reaping.cleared (h : Reaping ax lane B u D live ws s) (hlive : live ≠ []) {id : ℕ}
    (hle : id ≤ minMark ax live) {D' : DeviceId} (howed : Owed ax lane s u D' id) :
    Cleared ax B u D ws s D' id := by
  rcases h.snapshot.owed D' id howed with ⟨c, hmem, hcleared⟩ | hnewer | hdropped
  · exact hcleared (hle.trans (minMark_le hmem))
  · obtain ⟨row, hrow⟩ := exists_mem_of_ne_nil live hlive
    have := hnewer row hrow
    have := hle.trans (minMark_le hrow)
    omega
  · exact .inr (.inr hdropped)

theorem mem_idsUpTo {db : Db} {floor id : ℕ} :
    id ∈ db.idsUpTo ax u floor ↔ Holds ax db u id ∧ id ≤ floor := by
  simp only [Db.idsUpTo, mem_map, Prod.exists, Table.mem_select, Bool.and_eq_true,
    beq_iff_eq, decide_eq_true_eq, Holds]
  constructor
  · rintro ⟨id, row, ⟨hget, huin, hle⟩, rfl⟩
    exact ⟨⟨row, hget, huin⟩, hle⟩
  · rintro ⟨⟨row, hget, huin⟩, hle⟩
    exact ⟨id, row, ⟨hget, huin, hle⟩, rfl⟩

/-- The delete on the queue in question. -/
theorem wp_reapAxis (hlive : live ≠ []) (h : Reaping ax lane B u D live ws s) :
    (outline ax lane).wp r (reapAxis ax u (minMark ax live))
      (fun _ ws s => Drains ax lane B u D ws s) ws s := by
  have hO := outline_coherent ax lane
  unfold reapAxis
  split
  · refine wp_write hO fun s₁ hrely hinv _ => ?_
    have hnow := h.mono hrely.toGrows hinv
    refine hnow.drains.append (by simp) fun id row hrow => ?_
    simp only [mem_map, mem_idsUpTo, Write.queued.injEq, true_and] at hrow
    obtain ⟨id, ⟨⟨row', hget, huin⟩, hle⟩, rfl, rfl⟩ := hrow
    refine ⟨rfl, ⟨s₁.db, mem_cons_self, row', ?_, huin⟩, fun D' howed => ?_⟩
    · rcases queue_get_applyAll ws s₁.db id with hsame | hwrite
      · exact hsame.symm.trans hget
      · exact absurd hwrite (h.untouched _ _)
    · exact hnow.cleared hlive hle howed
  · exact h.drains

/-- The delete on the other queue keeps whatever does not look there. -/
private theorem wp_reapAxis_other {A : List Write → State → Prop} {ax' : Axis} {floor : ℕ}
    (hmono : ∀ ws s s', A ws s → Grows ax lane s s' → Inv ax lane s' → A ws s')
    (happend : ∀ ws s new, A ws s → (∀ o ∈ new, ∃ id, o = Write.queued ax' id none) →
      A (ws ++ new) s) (h : A ws s) :
    (outline ax lane).wp r (reapAxis ax' u floor) (fun _ ws s => A ws s) ws s := by
  have hO := outline_coherent ax lane
  unfold reapAxis
  split
  · refine wp_write hO fun s₁ hrely hinv _ => ?_
    refine happend _ _ _ (hmono _ _ _ h hrely.toGrows hinv) fun o ho => ?_
    obtain ⟨id, -, rfl⟩ := mem_map.mp ho
    exact ⟨id, rfl⟩
  · exact h

private theorem Drains.append_other {ax' : Axis} {new : List Write} (hne : ax' ≠ ax)
    (h : Drains ax lane B u D ws s) (hnew : ∀ o ∈ new, ∃ id, o = Write.queued ax' id none) :
    Drains ax lane B u D (ws ++ new) s := by
  refine h.append (fun u D c hc => ?_) fun id row hrow => ?_
  · obtain ⟨id, heq⟩ := hnew _ hc
    cases heq
  · obtain ⟨id, heq⟩ := hnew _ hrow
    cases heq
    exact absurd rfl hne

private theorem Reaping.append_other {ax' : Axis} {new : List Write} (hne : ax' ≠ ax)
    (h : Reaping ax lane B u D cs ws s) (hnew : ∀ o ∈ new, ∃ id, o = Write.queued ax' id none) :
    Reaping ax lane B u D cs (ws ++ new) s := by
  refine ⟨h.drains.append_other hne hnew, h.snapshot.append fun u D c hc => ?_,
    fun id row hrow => ?_⟩
  · obtain ⟨id, heq⟩ := hnew _ hc
    cases heq
  · rcases mem_append.mp hrow with hold | hin
    · exact h.untouched id row hold
    · obtain ⟨id, heq⟩ := hnew _ hin
      cases heq
      exact hne rfl

theorem wp_reapBelow (h : Reaping ax lane B u D live ws s) :
    (outline ax lane).wp r (reapBelow u live) (fun _ ws s => Drains ax lane B u D ws s) ws s := by
  unfold reapBelow
  split
  · exact h.drains
  rename_i hlive
  cases ax with
  | direct =>
    refine wp_seq (wp_reapAxis hlive h) fun _ ws₁ s₁ h₁ => ?_
    refine wp_seq ?_ fun _ _ _ h₂ => h₂
    exact wp_reapAxis_other (fun _ _ _ h hgrows hinv => h.mono hgrows hinv)
      (fun _ _ _ h hnew => h.append_other (by decide) hnew) h₁
  | group =>
    refine wp_seq ?_ fun _ ws₁ s₁ h₁ => wp_seq (wp_reapAxis hlive h₁) fun _ _ _ h₂ => h₂
    exact wp_reapAxis_other (fun _ _ _ h hgrows hinv => h.mono hgrows hinv)
      (fun _ _ _ h hnew => h.append_other (by decide) hnew) h

/-- Dropping the stale cursors of the list. -/
theorem wp_deleteCursors {stale : List ((Uin × DeviceId) × QueueCursor)}
    (h : Reaping ax lane B u D cs ws s) (hkept : ∀ u' D', Write.cursor u' D' none ∉ ws)
    (hsub : ∀ row ∈ live, row ∈ cs) (hsplit : ∀ row ∈ cs, row ∉ live → row ∈ stale) :
    (outline ax lane).wp r (Prog.onlyIf (stale ≠ []) (deleteCursors stale))
      (fun _ ws s => Reaping ax lane B u D live ws s) ws s := by
  have hO := outline_coherent ax lane
  unfold Prog.onlyIf
  split
  · refine wp_write hO fun s₁ hrely hinv _ => ?_
    have hnow := h.mono hrely.toGrows hinv
    generalize hnew : map _ _ = new
    have hcursors : ∀ u D c, Write.cursor u D (some c) ∉ new := by
      rw [← hnew]
      simp
    have hrows : ∀ id row, Write.queued ax id row ∉ new := by
      rw [← hnew]
      simp
    refine ⟨hnow.drains.append hcursors fun id row hrow => absurd hrow (hrows id row), ?_, ?_⟩
    · refine (hnow.snapshot.append hcursors).sublist hsub fun D' c hmem hlive hcursor => ?_
      -- the view still has the cursor, so the statement deletes it
      have hview : (s₁.view ws).queueCursors.get (u, D') ≠ none := by
        intro hnone
        rcases cursor_get_applyAll ws s₁.db u D' with hsame | hwrite
        · obtain ⟨c', hc'⟩ := hcursor
          rw [← hsame, show (applyAll ws s₁.db).queueCursors.get (u, D') = none from hnone] at hc'
          cases hc'
        · rw [show (applyAll ws s₁.db).queueCursors.get (u, D') = none from hnone] at hwrite
          exact hkept u D' hwrite
      refine dropped_of_mem ?_ (hcursors u D')
      rw [← hnew]
      refine mem_map.mpr ⟨((u, D'), c), mem_filter.mpr ⟨hsplit _ hmem hlive, ?_⟩, rfl⟩
      exact Option.isSome_iff_ne_none.mpr hview
    · intro id row hrow
      exact (mem_append.mp hrow).elim (hnow.untouched id row) (hrows id row)
  · rename_i hnone
    obtain rfl := not_not.mp hnone
    refine ⟨h.drains, h.snapshot.sublist hsub fun D' c hmem hlive _ => ?_, h.untouched⟩
    exact absurd (hsplit _ hmem hlive) not_mem_nil

/-- `_reap_below_min` after the transaction has moved the install's own cursor. -/
theorem wp_reapBelowMin (h : Drains ax lane B u D ws s)
    (hkept : ∀ u' D', Write.cursor u' D' none ∉ ws)
    (hrows : ∀ id row, Write.queued ax id row ∉ ws) :
    (outline ax lane).wp r (reapBelowMin u) (fun _ ws s => Drains ax lane B u D ws s) ws s := by
  have hO := outline_coherent ax lane
  refine wp_read_bind hO fun s₁ hrely₁ hinv₁ _ => ?_
  have hdrains := h.mono hrely₁.toGrows hinv₁
  have hread : Reaping ax lane B u D ((s₁.view ws).cursorsOf u) ws s₁ :=
    ⟨hdrains, .of_read hinv₁ hdrains hkept, hrows⟩
  refine wp_read_bind hO fun s₂ hrely₂ hinv₂ _ => ?_
  have hnow := hread.mono hrely₂.toGrows hinv₂
  refine wp_seq (wp_deleteCursors hnow hkept (fun row hrow => (mem_filter.mp hrow).1) ?_)
    fun _ _ _ h => wp_reapBelow h
  intro row hrow hlive
  refine mem_filter.mpr ⟨hrow, ?_⟩
  by_contra hfresh
  exact hlive (mem_filter.mpr ⟨hrow, by simpa using hfresh⟩)

end Reaping

end RcqServer.Queue
