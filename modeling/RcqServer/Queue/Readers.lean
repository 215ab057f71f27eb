import RcqServer.Queue.Reap

/-!
# Fetches and acks keep the invariant

The handlers that move cursors, statement by statement.  One lemma for each function of the
source says what the function has established when it returns, in the terms of `Passed` and
`Drains`; the two endpoints are put together from them.
-/

namespace RcqServer.Queue

open ReadCommitted Messages Outline List Shared

variable {ax : Axis} {lane : Lane} {r : Request} {s s' : State} {u : Uin} {D : DeviceId}
  {B : ℕ → Prop} {ws : List Write}

/-- The component of a pair of marks on one axis. -/
def sel : Axis → ℕ × ℕ → ℕ
  | .direct, p => p.1
  | .group, p => p.2

/-- A fact that growth of the past cannot break is kept by any handler. -/
theorem wp_keep {α : Type} {K : State → Prop} {p : Handler α} {Q : α → List Write → State → Prop}
    (hK : ∀ s s', K s → Grows ax lane s s' → Inv ax lane s' → K s')
    (hwp : (outline ax lane).wp r p Q ws s) (h : K s) :
    (outline ax lane).wp r p (fun a ws s => Q a ws s ∧ K s) ws s := by
  refine wp_and_stable ?_ ?_ hwp h
  · exact fun _ ws s s' hk hrely hinv => hK s s' hk (Rely.toGrows hrely) hinv
  · exact fun _ ws s s' hk hstep => hK s s' hk (Guar.toGrows hstep.guar) hstep.inv

/-! ## Floors -/

private theorem bounded_foldr {l : List ℕ} {m₀ : ℕ} (h₀ : Bounded ax s u m₀)
    (hl : ∀ m ∈ l, Bounded ax s u m) : Bounded ax s u (l.foldr max m₀) := by
  induction l with
  | nil => exact h₀
  | cons m l ih =>
    exact (hl m mem_cons_self).max (ih fun x hx => hl x (mem_cons_of_mem _ hx))

theorem watermark_bounded (hinv : Inv ax lane s) (u : Uin) :
    Bounded ax s u (s.db.watermark u ax) := by
  refine bounded_foldr (.inl rfl) fun m hm => ?_
  obtain ⟨⟨⟨u', D'⟩, c⟩, hmem, rfl⟩ := mem_map.mp hm
  obtain ⟨hget, rfl⟩ := mem_cursorsOf.mp hmem
  exact hinv.marks u' D' c hget

private theorem sel_watermark (db : Db) (u : Uin) :
    sel ax (db.watermark u .direct, db.watermark u .group) = db.watermark u ax := by
  cases ax <;> rfl

theorem wp_accountWatermark (l : Label) : (outline ax lane).wp r (accountWatermark l u)
      (fun marks ws s => ws = [] ∧ Bounded ax s u (sel ax marks)) [] s := by
  refine wp_read (outline_coherent ax lane) fun s₁ _ hinv _ => ⟨rfl, ?_⟩
  rw [view_nil, sel_watermark]
  exact watermark_bounded hinv u

/-- `drain_floor`.  The floor is a mark that the install has passed if it has a cursor, or if the
schedule (`P`) says that it has none when the watermark is read. -/
theorem wp_drainFloor {P : Prop} (hcond : P → ∀ s, Cond r .floorWatermark s → ¬HasCursor s.db u D) :
    (outline ax lane).wp r (drainFloor u D) (fun floor ws s => ws = [] ∧
      Bounded ax s u (floor.mark ax) ∧
      (floor.cursor ≠ none ∨ P → Passed ax lane (fun _ => False) s u D (floor.mark ax))) [] s := by
  have hO := outline_coherent ax lane
  refine wp_read_bind hO fun s₁ _ hinv₁ _ => ?_
  cases hc : s₁.db.queueCursors.get (u, D) with
  | some c =>
    have hmark : (⟨c.lastDirectId, c.lastGroupId, some c⟩ : Floor).mark ax = c.mark ax := by
      cases ax <;> rfl
    simp only [view_nil, hc]
    refine ⟨rfl, ?_, fun _ => ?_⟩
    · rw [hmark]
      exact hinv₁.marks u D c hc
    · rw [hmark]
      exact .of_cursor hinv₁ hc
  | none =>
    simp only [view_nil, hc]
    refine wp_read_bind hO fun s₂ _ hinv₂ hnow => ?_
    have hmark : (⟨s₂.db.watermark u .direct, s₂.db.watermark u .group, none⟩ : Floor).mark ax =
        s₂.db.watermark u ax := by
      cases ax <;> rfl
    have hbounded := watermark_bounded hinv₂ u
    rw [← hmark] at hbounded
    refine ⟨rfl, hbounded, fun hP => ?_⟩
    exact .of_noCursor hbounded (hcond (hP.resolve_left fun h => h rfl) s₂ hnow)

/-! ## Moving a cursor -/

theorem upsert_mark (old : Option QueueCursor) (d g sd sg : ℕ) (now : Time) :
    (QueueCursor.upsert old d g sd sg now).mark ax = match old with
      | some c => max (c.mark ax) (sel ax (d, g))
      | none => max (sel ax (d, g)) (sel ax (sd, sg)) := by
  cases ax <;> cases old <;> rfl

/-- `upsert_cursor` leaves the install's cursor at a mark that it has passed, if it was asked to
move it to one. -/
theorem wp_upsertCursor {l : Label} {d g sd sg : ℕ}
    (hpassed : Passed ax lane B s u D (sel ax (d, g))) (hseed : Bounded ax s u (sel ax (sd, sg))) :
    (outline ax lane).wp r (upsertCursor l u D d g sd sg) (fun marks ws s =>
      ∃ c, ws = [.cursor u D (some c)] ∧ sel ax marks = c.mark ax ∧
        Passed ax lane B s u D (c.mark ax)) [] s := by
  have hO := outline_coherent ax lane
  refine wp_read_bind hO fun s₁ hrely₁ _ _ => ?_
  refine wp_write hO fun s₂ hrely₂ hinv₂ _ => ?_
  have hgrows := hrely₁.toGrows.trans hrely₂.toGrows
  refine ⟨_, rfl, by cases ax <;> rfl, ?_⟩
  rw [upsert_mark, view_nil]
  cases hc : s₂.db.queueCursors.get (u, D) with
  | some c => exact (Passed.of_cursor hinv₂ hc).max (hpassed.mono hgrows hinv₂)
  | none =>
    refine .of_noCursor ((hpassed.bounded.max hseed).mono (hgrows.ever u)) ?_
    rintro ⟨c, hc'⟩
    rw [hc] at hc'
    cases hc'

theorem wp_seedMarks (cursor : Option QueueCursor) : (outline ax lane).wp r (seedMarks u D cursor)
      (fun marks ws s => ws = [] ∧ Bounded ax s u (sel ax marks)) [] s := by
  have hzero : ∀ s : State, Bounded ax s u (sel ax (0, 0)) := by
    intro s
    cases ax <;> exact .inl rfl
  cases cursor with
  | some c => exact ⟨rfl, hzero s⟩
  | none =>
    refine wp_read_bind (outline_coherent ax lane) fun s₁ _ _ _ => ?_
    cases hc : s₁.db.queueCursors.get (u, D) with
    | some c =>
      simp only [view_nil, hc]
      exact ⟨rfl, hzero s₁⟩
    | none =>
      simp only [view_nil, hc]
      exact wp_accountWatermark .seedWatermark

/-- `_advance_cursor` to a mark that the install has passed. -/
theorem wp_advanceCursor {maxDirect maxGroup : ℕ} (cursor : Option QueueCursor)
    (hpassed : Passed ax lane B s u D (sel ax (maxDirect, maxGroup))) :
    (outline ax lane).wp r (advanceCursor u D maxDirect maxGroup cursor)
      (fun _ ws s => Drains ax lane B u D ws s) [] s := by
  refine wp_seq (wp_keep (fun _ _ h hgrows hinv => Passed.mono h hgrows hinv)
    (wp_seedMarks cursor) hpassed) ?_
  rintro seeds ws s ⟨⟨rfl, hseed⟩, hpassed⟩
  refine wp_seq (wp_upsertCursor hpassed hseed) ?_
  rintro _ ws s ⟨c, rfl, -, hmark⟩
  refine wp_reapBelowMin ⟨?_, ?_⟩ ?_ ?_
  · intro u' D' c' hc'
    cases mem_singleton.mp hc'
    exact ⟨rfl, rfl, hmark⟩
  · simp
  · simp
  · simp

/-! ## The rows above a floor -/

section Rows

variable {base id : ℕ} {dev : Option ℕ}

theorem mem_rowsAbove {db : Db} : id ∈ (db.rowsAbove ax u base dev).map Prod.fst ↔
    base < id ∧ ∃ row, (db.queue ax).get id = some row ∧ row.toUin = u ∧ row.visibleTo dev := by
  simp only [Db.rowsAbove, mem_map, Prod.exists, Table.mem_select, Bool.and_eq_true,
    beq_iff_eq, decide_eq_true_eq]
  constructor
  · rintro ⟨id, row, ⟨hget, ⟨huin, hlt⟩, hvisible⟩, rfl⟩
    exact ⟨hlt, row, hget, huin, hvisible⟩
  · rintro ⟨hlt, row, hget, huin, hvisible⟩
    exact ⟨id, row, ⟨hget, ⟨huin, hlt⟩, hvisible⟩, rfl⟩

theorem bounded_of_mem_rowsAbove (hid : id ∈ (s.db.rowsAbove ax u base dev).map Prod.fst) :
    Bounded ax s u id := by
  obtain ⟨-, row, hget, huin, -⟩ := mem_rowsAbove.mp hid
  exact .inr ⟨id, ⟨s.db, mem_cons_self, row, hget, huin⟩, le_rfl⟩

/-- An install that asks for its lane is served what is owed to it above the floor. -/
theorem settled_or_served (hinv : Inv ax lane s)
    (hfloor : Passed ax lane (fun _ => False) s u D base)
    (hlane : ∀ row : QueuedRow, lane u D row.toDeviceId → row.visibleTo dev)
    (howed : Owed ax lane s u D id) :
    Settled ax s.ext u D id ∨ id ∈ (s.db.rowsAbove ax u base dev).map Prod.fst := by
  by_cases hle : id ≤ base
  · exact .inl ((hfloor.settled id howed hle).resolve_right not_false)
  by_cases hholds : Holds ax s.db u id
  · obtain ⟨row, hget, huin, hmine⟩ := hinv.tracks u D id howed hholds
    exact .inr (mem_rowsAbove.mpr ⟨by omega, row, hget, huin, hlane row hmine⟩)
  · exact .inl (hinv.kept u D id howed hholds)

/-- The mark of a fetch that takes everything it was served. -/
theorem Passed.of_served (hinv : Inv ax lane s)
    (hfloor : Passed ax lane (fun _ => False) s u D base)
    (hlane : ∀ row : QueuedRow, lane u D row.toDeviceId → row.visibleTo dev) :
    Passed ax lane (· ∈ (s.db.rowsAbove ax u base dev).map Prod.fst) s u D
      (((s.db.rowsAbove ax u base dev).map Prod.fst).foldr Max.max base) :=
  ⟨bounded_foldr hfloor.bounded fun _ => bounded_of_mem_rowsAbove,
    fun _ howed _ => settled_or_served hinv hfloor hlane howed⟩

theorem ackedEnd_eq_or_mem (acked : List ℕ) :
    ∀ (base : ℕ) (l : List ℕ), ackedEnd acked base l = base ∨ ackedEnd acked base l ∈ l
  | base, [] => .inl rfl
  | base, i :: rest => by
    rw [ackedEnd]
    split
    · rcases ackedEnd_eq_or_mem acked i rest with heq | hmem
      · rw [heq]
        exact .inr mem_cons_self
      · exact .inr (mem_cons_of_mem _ hmem)
    · exact .inl rfl

/-- The walk stops before the first id that is not acked. -/
theorem acked_of_le_ackedEnd {acked : List ℕ} :
    ∀ {base : ℕ} {l : List ℕ}, l.Pairwise (· ≤ ·) → ∀ j ∈ l, j ≤ ackedEnd acked base l →
      j ∈ acked ∨ j ≤ base
  | base, i :: rest, hsorted, j, hj, hle => by
    rw [ackedEnd] at hle
    split at hle
    · rename_i hi
      obtain ⟨hfirst, hrest⟩ := pairwise_cons.mp hsorted
      rcases mem_cons.mp hj with rfl | hj
      · exact .inl hi
      rcases acked_of_le_ackedEnd hrest j hj hle with hin | hji
      · exact .inl hin
      · exact .inl (Nat.le_antisymm hji (hfirst j hj) ▸ hi)
    · exact .inr hle

/-- The mark of an ack. -/
theorem Passed.of_acked (hinv : Inv ax lane s) (hfloor : Passed ax lane (fun _ => False) s u D base)
    (hlane : ∀ row : QueuedRow, lane u D row.toDeviceId → row.visibleTo dev) (acked : List ℕ) :
    Passed ax lane (· ∈ acked) s u D (ackedEnd acked base
      (((s.db.rowsAbove ax u base dev).map Prod.fst).insertionSort (· ≤ ·))) := by
  constructor
  · rcases ackedEnd_eq_or_mem acked base
      (((s.db.rowsAbove ax u base dev).map Prod.fst).insertionSort (· ≤ ·)) with heq | hmem
    · rw [heq]
      exact hfloor.bounded
    · exact bounded_of_mem_rowsAbove ((mem_insertionSort _).mp hmem)
  · intro id howed hle
    rcases settled_or_served hinv hfloor hlane howed with hdone | hmem
    · exact .inl hdone
    rcases acked_of_le_ackedEnd (pairwise_insertionSort _ _) id
      ((mem_insertionSort _).mpr hmem) hle with hin | hbase
    · exact .inr hin
    · exact .inl ((hfloor.settled id howed hbase).resolve_right not_false)

theorem wp_ackedPrefix {acked : List ℕ} (hfloor : Passed ax lane (fun _ => False) s u D base)
    (hlane : ∀ row : QueuedRow, lane u D row.toDeviceId → row.visibleTo dev) :
    (outline ax lane).wp r (ackedPrefix ax u base acked dev)
      (fun mark ws s => ws = [] ∧ Passed ax lane (· ∈ acked) s u D mark) [] s := by
  unfold ackedPrefix
  split
  · exact ⟨rfl, hfloor.weaken⟩
  · refine wp_read (outline_coherent ax lane) fun s₁ hrely hinv _ => ⟨rfl, ?_⟩
    exact .of_acked hinv (hfloor.mono hrely.toGrows hinv) hlane acked

/-- The walk over the other queue. -/
theorem wp_ackedPrefix_other {ax' : Axis} {acked : List ℕ} :
    (outline ax lane).wp r (ackedPrefix ax' u base acked dev) (fun _ ws _ => ws = []) [] s := by
  unfold ackedPrefix
  split
  · exact rfl
  · exact wp_read (outline_coherent ax lane) fun _ _ _ _ => rfl

end Rows

/-! ## The endpoints -/

theorem mem_queueEvents {direct group : List ℕ} {id : ℕ} :
    ⟨u, D, ax, id⟩ ∈ queueEvents u D direct group ↔ match ax with
      | .direct => id ∈ direct
      | .group => id ∈ group := by
  cases ax <;> simp [queueEvents]

private theorem visible_some {dev : ℕ} (h : Shown .direct lane u D dev)
    (row : QueuedRow) (hmine : lane u D row.toDeviceId) : row.visibleTo (some dev) := by
  rcases h rfl _ hmine with hnone | hsome
  · simp [QueuedRow.visibleTo, hnone]
  · simp [QueuedRow.visibleTo, hsome]

private theorem visible_none (row : QueuedRow) : row.visibleTo none := by
  simp [QueuedRow.visibleTo]

/-- A first fetch pins a floor that it has passed, as nothing was owed to the install before. -/
theorem wp_pinFloor {floor : Floor} (hinv : Inv ax lane s)
    (hbounded : Bounded ax s u (floor.mark ax))
    (hcursor : floor.cursor ≠ none → Passed ax lane (fun _ => False) s u D (floor.mark ax)) :
    (outline ax lane).wp r (pinFloor u D floor) (fun after ws s => ws = [] ∧
      Passed ax lane (fun _ => False) s u D (sel ax after)) [] s := by
  have hmark : floor.mark ax = sel ax (floor.direct, floor.group) := by cases ax <;> rfl
  rw [hmark] at hbounded hcursor
  unfold pinFloor
  cases hc : floor.cursor with
  | some c => exact ⟨rfl, hcursor (by simp [hc])⟩
  | none =>
    have hzero : sel ax (0, 0) = 0 := by cases ax <;> rfl
    have hstart : Passed ax lane (fun _ => False) s u D (sel ax (0, 0)) := by
      rw [hzero]
      exact .zero hinv
    refine wp_seq (wp_upsertCursor hstart hbounded) ?_
    rintro marks ws s ⟨c, rfl, hmarks, hpassed⟩
    refine wp_bind.mpr (wp_commit fun s₁ hrely hinv₁ _ => ?_)
    have hnow := hpassed.mono hrely.toGrows hinv₁
    have hdrains : Drains ax lane (fun _ => False) u D [.cursor u D (some c)] s₁ := by
      refine ⟨fun u' D' c' hc' => ?_, by simp⟩
      cases mem_singleton.mp hc'
      exact ⟨rfl, rfl, hnow⟩
    have hstep : (outline ax lane).Step r .commit _ s₁ (s₁.commit _ s₁.ext) :=
      hdrains.step_commit hinv₁ rfl (fun _ h => h) (fun _ _ _ h => h) (fun _ h => h.elim)
        hinv₁.honest hinv₁.drained r
    refine ⟨hstep, rfl, ?_⟩
    rw [hmarks]
    exact hnow.mono (Guar.toGrows hstep.guar) hstep.inv

@[simp] theorem nextId_hand (e : Ext) (rows : List QueueEvent) :
    (e.hand rows).nextId ax = e.nextId ax := by
  cases ax <;> rfl

@[simp] theorem nextId_drain (e : Ext) (rows : List QueueEvent) :
    (e.drain rows).nextId ax = e.nextId ax := by
  cases ax <;> rfl

@[simp] theorem nextId_ack (e : Ext) (rows : List QueueEvent) :
    (e.ack rows).nextId ax = e.nextId ax := by
  cases ax <;> rfl

private theorem settled_drain (e : Ext) (rows : List QueueEvent) (u : Uin) (D : DeviceId) (id : ℕ)
    (h : Settled ax e u D id) : Settled ax (e.drain rows) u D id :=
  h.imp_left fun h => mem_append_right _ h

/-- The end of a fetch whose rows are `direct` and `group`. -/
theorem wp_finishFetch {ack : Bool} {cursor : Option QueueCursor} {after : ℕ × ℕ}
    {direct group : List ℕ}
    (hpassed : Passed ax lane (fun id => ⟨u, D, ax, id⟩ ∈ queueEvents u D direct group) s u D
      (sel ax (direct.foldr Max.max after.1, group.foldr Max.max after.2))) :
    (outline ax lane).Safe r (finishFetch u D ack cursor after direct group) [] s := by
  unfold finishFetch
  cases ack with
  | true =>
    intro s₁ _ _
    refine wp_effect fun s₂ _ hinv _ => ⟨?_, trivial⟩
    refine step_tell hinv (nextId_hand _ _).ge ?_ (fun _ _ _ h => h) ?_ ?_ r
    · exact fun _ h => mem_append_right _ h
    · exact fun _ h => mem_append_right _ (hinv.honest _ h)
    · exact fun _ h => mem_append_right _ (hinv.drained _ h)
  | false =>
    refine wp_seq (wp_advanceCursor cursor hpassed) fun _ ws s hdrains => ?_
    refine wp_commit fun s₁ hrely hinv _ => ⟨?_, trivial⟩
    refine (hdrains.mono hrely.toGrows hinv).step_commit hinv (nextId_drain _ _) ?_
      (settled_drain _ _) ?_ ?_ ?_ r
    · exact fun _ h => mem_append_right _ h
    · exact fun id hid => .inl (mem_append_left _ hid)
    · exact fun _ h => mem_append_right _ (hinv.honest _ h)
    · intro event hevent
      rcases mem_append.mp hevent with hnew | hold
      · exact mem_append_left _ hnew
      · exact mem_append_right _ (hinv.drained _ hold)

/-- `GET /messages/queue` keeps the invariant. -/
theorem wp_fetchQueue {ack : Bool} {dev : ℕ} (hinv : Inv ax lane s)
    (hlane : Shown ax lane u D dev) : (outline ax lane).Safe r (fetchQueue u D ack dev) [] s := by
  have hO := outline_coherent ax lane
  have hsame : ∀ s s' : State, Inv ax lane s → Grows ax lane s s' → Inv ax lane s' →
      Inv ax lane s' := fun _ _ _ _ h => h
  refine wp_seq (wp_keep hsame (wp_drainFloor (P := False) fun h => h.elim) hinv) ?_
  rintro floor ws s ⟨⟨rfl, hbounded, hcursor⟩, hinv⟩
  refine wp_seq (wp_pinFloor hinv hbounded fun h => hcursor (.inl h)) ?_
  rintro after ws s ⟨rfl, hafter⟩
  refine wp_read_bind hO fun s₁ hrely₁ hinv₁ _ => ?_
  have h₁ := hafter.mono hrely₁.toGrows hinv₁
  refine wp_read_bind hO fun s₂ hrely₂ hinv₂ _ => ?_
  refine wp_seq (wp_finishFetch ?_) fun _ _ _ _ => trivial
  simp only [view_nil, mem_queueEvents]
  -- the batch is what was read from the queue in question, at the time it was read
  cases ax with
  | direct => exact (Passed.of_served hinv₁ h₁ (visible_some hlane)).mono hrely₂.toGrows hinv₂
  | group =>
    exact Passed.of_served hinv₂ (h₁.mono hrely₂.toGrows hinv₂) fun row _ => visible_none row

private theorem settled_ack (e : Ext) (rows : List QueueEvent) (u : Uin) (D : DeviceId) (id : ℕ)
    (h : Settled ax e u D id) : Settled ax (e.ack rows) u D id :=
  h.imp_right fun h => mem_append_right _ h

/-- The two walks of an ack, with a fact `K` that nothing breaks. -/
private theorem wp_ackedPrefixes {β : Type} {K : State → Prop} {floor : Floor} {body : AckIn}
    {dev : ℕ} {f : ℕ → ℕ → Handler β} {R : β → List Write → State → Prop}
    (hK : ∀ s s', K s → Grows ax lane s s' → Inv ax lane s' → K s') (hlane : Shown ax lane u D dev)
    (hfloor : Passed ax lane (fun _ => False) s u D (floor.mark ax)) (h : K s)
    (hf : ∀ direct group s, K s →
      Passed ax lane (fun id => ⟨u, D, ax, id⟩ ∈ queueEvents u D body.directIds body.groupIds) s u D
        (sel ax (direct, group)) → (outline ax lane).wp r (f direct group) R [] s) :
    (outline ax lane).wp r
      ((ackedPrefix .direct u floor.direct body.directIds (some dev)).bind fun direct =>
        (ackedPrefix .group u floor.group body.groupIds none).bind (f direct)) R [] s := by
  simp only [mem_queueEvents] at hf
  cases ax with
  | direct =>
    refine wp_seq (wp_keep hK (wp_ackedPrefix hfloor (visible_some hlane)) h) ?_
    rintro direct ws s ⟨⟨rfl, hmark⟩, h⟩
    refine wp_seq (wp_keep (fun s s' (h : K s ∧ Passed .direct lane _ s u D direct) hgrows hinv =>
      ⟨hK s s' h.1 hgrows hinv, h.2.mono hgrows hinv⟩) wp_ackedPrefix_other ⟨h, hmark⟩) ?_
    rintro group ws s ⟨rfl, h, hmark⟩
    exact hf direct group s h hmark
  | group =>
    refine wp_seq (wp_keep
      (fun s s' (h : K s ∧ Passed .group lane _ s u D floor.group) hgrows hinv =>
        ⟨hK s s' h.1 hgrows hinv, h.2.mono hgrows hinv⟩) wp_ackedPrefix_other ⟨h, hfloor⟩) ?_
    rintro direct ws s ⟨rfl, h, hfloor⟩
    refine wp_seq (wp_keep hK (wp_ackedPrefix hfloor fun row _ => visible_none row) h) ?_
    rintro group ws s ⟨⟨rfl, hmark⟩, h⟩
    exact hf direct group s h hmark

/-- `POST /messages/queue/ack` keeps the invariant, if the client acks only what it was handed
and no cursor has appeared when a missing one is replaced by the watermark. -/
theorem wp_ackQueue {body : AckIn} {dev : ℕ} (hlane : Shown ax lane u D dev)
    (hhonest : ∀ event ∈ queueEvents u D body.directIds body.groupIds, event ∈ s.ext.handed) :
    (outline ax lane).Safe (.ackQueue u D body dev) (ackQueue u D body dev) [] s := by
  let Honest (s : State) := ∀ event ∈ queueEvents u D body.directIds body.groupIds,
    event ∈ s.ext.handed
  have hkeep : ∀ s s', Honest s → Grows ax lane s s' → Inv ax lane s' → Honest s' :=
    fun s s' h hgrows _ event hevent => hgrows.handed event (h event hevent)
  refine wp_seq (wp_keep hkeep (wp_drainFloor (P := True) fun _ s h => h) hhonest) ?_
  rintro floor ws s ⟨⟨rfl, -, hfloor⟩, hhonest⟩
  refine wp_ackedPrefixes hkeep hlane (hfloor (.inr trivial)) hhonest ?_
  intro direct group s hhonest hmark
  refine wp_seq (wp_keep hkeep (wp_advanceCursor floor.cursor hmark) hhonest) ?_
  rintro reaped ws s ⟨hdrains, hhonest⟩
  refine wp_bind.mpr (wp_commit fun s₁ hrely hinv _ => ⟨?_, trivial⟩)
  refine (hdrains.mono hrely.toGrows hinv).step_commit hinv (nextId_ack _ _) (fun _ h => h)
    (settled_ack _ _) ?_ ?_ hinv.drained _
  · exact fun id hid => .inr (mem_append_left _ hid)
  · intro event hevent
    rcases mem_append.mp hevent with hnew | hold
    · exact hrely.handed event (hhonest event hnew)
    · exact hinv.honest event hold

end RcqServer.Queue
