import RcqServer.Queue.Delivery
import RcqServer.ReadCommitted.Transaction

/-!
# Where an ack moves a cursor

An ack names ids, and the marks of its install's cursor move over the rows that it names: not back,
not on the axis that it does not name, and not over a row that was there and that it does not name.

For an ack whose install has a cursor when it reads its floor this follows from one fact about
everybody else: cursors stay and their marks only grow (`Forward`).  The walk over the acked ids
starts at the mark that was read, so it covers everything between the mark that the upsert finds and
the one that it leaves (`Walked`).

An ack that finds no cursor takes the account's watermark for its floor, and the upsert applies that
floor to the cursor that a racing fetch has pinned lower in the meantime.

The assertions are about one session, which is followed by its number, and one row, which is there
when that session walks over the rows of its axis.
-/

namespace RcqServer.Queue

open ReadCommitted Messages Outline Option World Shared List

/-- Every cursor is still there, and neither of its marks has gone back. -/
def Forward (db db' : Db) : Prop :=
  ∀ u D c, db.queueCursors.get (u, D) = some c →
    ∃ c', db'.queueCursors.get (u, D) = some c' ∧ ∀ ax, c.mark ax ≤ c'.mark ax

theorem Forward.refl (db : Db) : Forward db db :=
  fun _ _ c hc => ⟨c, hc, fun _ => le_rfl⟩

theorem Forward.trans {db₁ db₂ db₃ : Db} (h : Forward db₁ db₂) (h' : Forward db₂ db₃) :
    Forward db₁ db₃ := by
  intro u D c hc
  obtain ⟨c', hc', hle⟩ := h u D c hc
  obtain ⟨c'', hc'', hle'⟩ := h' u D c' hc'
  exact ⟨c'', hc'', fun ax => (hle ax).trans (hle' ax)⟩

/-- The device whose rows an ack walks over: group rows have no addressee among the devices. -/
def walkedAs (dev : ℕ) : Axis → Option ℕ
  | .direct => some dev
  | .group => none

/-- What a step of an ack does to the cursor of its install: an axis without ids stays, and the
ack that session `n₀` serves passes the given row only if it names it. -/
def MovesOwn (n₀ : ℕ) (ax : Axis) (id : ℕ) (row : QueuedRow) : ℕ × Request → Db → Db → Prop
  | (n, .ackQueue u D body dev), db, db' => ∀ c c', db.queueCursors.get (u, D) = some c →
      db'.queueCursors.get (u, D) = some c' →
        (∀ ax, body.ids ax = [] → c'.mark ax = c.mark ax) ∧
        (n = n₀ → row.toUin = u → row.visibleTo (walkedAs dev ax) → c.mark ax < id →
          id ≤ c'.mark ax → id ∈ body.ids ax)
  | _, _, _ => True

/-- The install that acks. -/
def acker? : Request → Option (Uin × DeviceId)
  | .ackQueue u D _ _ => some (u, D)
  | _ => none

/-- An ack reads its floor from a cursor, and no cursor is dropped. -/
def Calm (r : Request) (l : Label) (s : State) : Prop :=
  l ≠ .dropStale ∧ (l = .getCursor → ∀ x ∈ acker? r, HasCursor s.db x.1 x.2)

namespace Marks

section Outline

variable (n₀ : ℕ) (ax₀ : Axis) (id₀ : ℕ) (row₀ : QueuedRow)

structure Rely (ws : List Write) (s s' : State) : Prop where
  forward : Forward s.db s'.db
  locked : ∀ u D, RowKey.cursor u D ∈ lockedRows Db ws →
    s'.db.queueCursors.get (u, D) = s.db.queueCursors.get (u, D)

structure Guar (x : ℕ × Request) (ws : List Write) (s s' : State) : Prop where
  forward : Forward s.db s'.db
  only : ∀ u D, s'.db.queueCursors.get (u, D) ≠ s.db.queueCursors.get (u, D) →
    RowKey.cursor u D ∈ lockedRows Db ws
  own : MovesOwn n₀ ax₀ id₀ row₀ x s.db s'.db

/-- The row is there when session `n₀` walks over the rows of its axis. -/
def outline : Outline Db Ext Write Label (ℕ × Request) where
  Inv _ := True
  Rely _ _ := Rely
  Guar x _ := Guar n₀ ax₀ id₀ row₀ x
  Start _ _ := True
  Cond x l s := Calm x.2 l s ∧
    (x.1 = n₀ → l = .ackedPrefix ax₀ → (s.db.queue ax₀).get id₀ = some row₀)
  Apart _ _ _ _ := True

end Outline

variable {n₀ id₀ : ℕ} {ax₀ : Axis} {row₀ : QueuedRow} {x : ℕ × Request} {ws : List Write}
  {s s' : State}

theorem movesOwn_refl (x : ℕ × Request) (db : Db) : MovesOwn n₀ ax₀ id₀ row₀ x db db := by
  obtain ⟨n, r⟩ := x
  cases r with
  | ackQueue u D body dev =>
    intro c c' hc hc'
    obtain rfl := some.inj (hc.symm.trans hc')
    refine ⟨fun _ _ => rfl, fun _ _ _ hlt hle => ?_⟩
    omega
  | _ => exact trivial

theorem guar_of_db_eq (hdb : s'.db = s.db) : Guar n₀ ax₀ id₀ row₀ x ws s s' where
  forward := by
    rw [hdb]
    exact .refl _
  only := by
    intro u D hne
    rw [hdb] at hne
    exact absurd rfl hne
  own := by
    rw [hdb]
    exact movesOwn_refl _ _

theorem guar_refl (l : Label) (ws : List Write) (s : State) :
    (outline n₀ ax₀ id₀ row₀).Guar x l ws s s :=
  guar_of_db_eq rfl

theorem coherent : (outline n₀ ax₀ id₀ row₀).CoherentBeside fun _ _ => True where
  rely_refl _ _ _ s := ⟨.refl s.db, fun _ _ _ => rfl⟩
  rely_trans _ _ _ _ _ _ h h' :=
    ⟨h.forward.trans h'.forward, fun u D hlock => (h'.locked u D hlock).trans (h.locked u D hlock)⟩
  rely_of_guar := by
    intro n r l ws n' r' l' ws' s s' _ _ _ hstep hlocks _
    refine ⟨hstep.guar.forward, fun u D hlock => ?_⟩
    by_contra hne
    exact hlocks _ hlock (hstep.guar.only u D hne)

/-! ## What a session is about to do to the cursors -/

/-- No pending write takes a mark back. -/
def Ahead (ws : List Write) (s : State) : Prop := Forward s.db (s.view ws)

/-- A write of something else than a cursor. -/
def NoCursor (w : Write) : Prop := ∀ u D row, w ≠ .cursor u D row

theorem cursor_view_noCursor {new : List Write} (hnew : ∀ o ∈ new, NoCursor o) (u : Uin)
    (D : DeviceId) :
    (s.view (ws ++ new)).queueCursors.get (u, D) = (s.view ws).queueCursors.get (u, D) := by
  unfold view
  rw [applyAll_append]
  rcases cursor_get_applyAll new (applyAll ws s.db) u D with hsame | hmem
  · exact hsame
  · exact absurd rfl (hnew _ hmem u D _)

theorem locked_or_view (ws : List Write) (s : State) (u : Uin) (D : DeviceId) :
    RowKey.cursor u D ∈ lockedRows Db ws ∨
      (s.view ws).queueCursors.get (u, D) = s.db.queueCursors.get (u, D) := by
  rcases cursor_get_applyAll ws s.db u D with hsame | hmem
  · exact .inr hsame
  · exact .inl (key_mem_lockedRows hmem)

/-- What is pending for a cursor depends on that cursor only. -/
theorem cursor_view_congr {u : Uin} {D : DeviceId}
    (h : s'.db.queueCursors.get (u, D) = s.db.queueCursors.get (u, D)) :
    (s'.view ws).queueCursors.get (u, D) = (s.view ws).queueCursors.get (u, D) :=
  sets_queueCursors.get_applyAll_congr ws h

theorem Ahead.rely (h : Ahead ws s) (hrely : Rely ws s s') : Ahead ws s' := by
  intro u D c hc
  rcases locked_or_view ws s' u D with hlock | hview
  · have hsame := hrely.locked u D hlock
    rw [hsame] at hc
    rw [cursor_view_congr hsame]
    exact h u D c hc
  · exact ⟨c, hview.trans hc, fun _ => le_rfl⟩

theorem Ahead.append {new : List Write} (h : Ahead ws s) (hnew : ∀ o ∈ new, NoCursor o) :
    Ahead (ws ++ new) s := by
  intro u D c hc
  rw [cursor_view_noCursor hnew]
  exact h u D c hc

theorem Ahead.guar_commit (h : Ahead ws s) (e : Ext)
    (hown : MovesOwn n₀ ax₀ id₀ row₀ x s.db (s.view ws)) :
    Guar n₀ ax₀ id₀ row₀ x ws s (s.commit ws e) where
  forward := h
  only := fun u D hne => (locked_or_view ws s u D).resolve_right hne
  own := hown

theorem step_tell (l : Label) (ws : List Write) (s : State) (e : Ext) :
    (outline n₀ ax₀ id₀ row₀).Step x l ws s (s.tell e) :=
  ⟨trivial, guar_of_db_eq rfl⟩

theorem carried_ahead : (outline n₀ ax₀ id₀ row₀).Carried x (fun _ => True) NoCursor Ahead where
  stable _ _ _ _ _ h hrely _ := h.rely hrely
  write _ _ _ h _ hnew := h.append hnew

/-- A request that acks nothing may do anything that takes no mark back. -/
theorem framed_ahead (hx : ∀ db db', MovesOwn n₀ ax₀ id₀ row₀ x db db') :
    (outline n₀ ax₀ id₀ row₀).Framed x NoCursor (fun _ _ => True) Ahead where
  stable _ _ _ _ h hrely _ := h.rely hrely
  stmt l _ s _ e h _ hnew _ := ⟨step_tell l _ s e, h.append hnew⟩
  commit _ _ _ e h _ _ := ⟨⟨trivial, h.guar_commit e (hx _ _)⟩, .refl _⟩
  rollback _ s _ := .refl s.db

/-! ## The statements that write cursors -/

theorem view_concat_cursor (u : Uin) (D : DeviceId) (row : Option QueueCursor)
    (k : Uin × DeviceId) : (s.view (ws ++ [.cursor u D row])).queueCursors.get k =
      if k = (u, D) then row else (s.view ws).queueCursors.get k := by
  unfold view
  rw [applyAll_concat]
  exact Table.get_set ..

/-- An upsert moves both marks of its cursor forward. -/
theorem Ahead.upsert (h : Ahead ws s) (u : Uin) (D : DeviceId) (d g sd sg : ℕ) (now : Time) :
    Ahead (ws ++ [.cursor u D (some (QueueCursor.upsert ((s.view ws).queueCursors.get (u, D))
      d g sd sg now))]) s := by
  intro u' D' c hc
  obtain ⟨c', hc', hle⟩ := h u' D' c hc
  rw [view_concat_cursor]
  split
  · rename_i hsame
    obtain ⟨rfl, rfl⟩ := Prod.mk.inj hsame
    refine ⟨_, rfl, fun ax => ?_⟩
    rw [upsert_mark, hc']
    exact (hle ax).trans (Nat.le_max_left _ _)
  · exact ⟨c', hc', hle⟩

theorem wp_upsertCursor {l : Label} {u : Uin} {D : DeviceId} {d g sd sg : ℕ} (h : Ahead ws s) :
    (outline n₀ ax₀ id₀ row₀).wp x (upsertCursor l u D d g sd sg) (fun _ ws s => Ahead ws s)
      ws s := by
  refine wp_bind.mpr (wp_query guar_refl fun s₁ hrely₁ _ _ => ?_)
  refine wp_update guar_refl fun s₂ hrely₂ _ _ => ?_
  exact ((h.rely hrely₁).rely hrely₂).upsert u D d g sd sg _

/-- The reap deletes queued rows; a cursor it would drop is out of the question. -/
theorem wp_reapBelowMin {A : List Write → State → Prop} {u : Uin}
    (hA : (outline n₀ ax₀ id₀ row₀).Carried x (fun _ => True) NoCursor A)
    (htell : ∀ ws s e, A ws s → A ws (s.tell e)) (h : A ws s) :
    (outline n₀ ax₀ id₀ row₀).wp x (reapBelowMin u) (fun _ ws s => A ws s) ws s := by
  have hreap : ∀ ax id, NoCursor (.queued ax id none) := nofun
  have hE : ∀ e : Ext, (fun _ _ => True) e e := fun _ => trivial
  refine wp_bind.mpr (wp_query guar_refl fun s₁ hrely₁ hinv₁ _ => ?_)
  have h₁ := hA.stable _ _ _ _ trivial h hrely₁ hinv₁
  refine wp_bind.mpr (wp_query guar_refl fun s₂ hrely₂ hinv₂ _ => ?_)
  have h₂ := hA.stable _ _ _ _ trivial h₁ hrely₂ hinv₂
  refine wp_seq (Q := fun _ ws s => A ws s) ?_ fun _ ws s h => ?_
  · unfold Prog.onlyIf
    split
    · exact fun _ _ _ hcond => (hcond.1.1 rfl).elim
    · exact h₂
  · refine wp_open_effect hA (E := fun _ _ => True)
      (fun l ws s e h _ _ => ⟨step_tell l ws s e, htell ws s e h⟩) ?_ ?_ h
    · refine Prog.Within.ite trivial ?_
      refine (reapAxis_within hE hreap _ _).bind fun _ => ?_
      exact (reapAxis_within hE hreap _ _).bind fun _ => trivial
    · have hopen : ∀ ax floor, (reapAxis ax u floor).Open fun _ => True :=
        fun ax floor => Prog.Open.ite (Prog.Open.write trivial _ _) trivial
      refine Prog.Open.ite trivial ((hopen _ _).bind fun _ => ?_)
      exact (hopen _ _).bind fun _ => trivial

/-! ## Fetches -/

theorem wp_fetchQueue (hx : ∀ db db', MovesOwn n₀ ax₀ id₀ row₀ x db db') {u : Uin} {D : DeviceId}
    {ack : Bool} {dev : ℕ} :
    (outline n₀ ax₀ id₀ row₀).wp x (fetchQueue u D ack dev) (fun _ ws s => Ahead ws s) [] s := by
  have hA : (outline n₀ ax₀ id₀ row₀).Framed x NoCursor (fun _ _ => True) Ahead := framed_ahead hx
  have hE : ∀ e : Ext, (fun _ _ => True) e e := fun _ => trivial
  refine wp_within_bind hA (drainFloor_within hE u D) (.refl s.db) fun floor ws s h => ?_
  refine wp_seq (Q := fun _ ws s => Ahead ws s) ?_ fun after ws s h => ?_
  · unfold pinFloor
    cases floor.cursor with
    | some c => exact h
    | none =>
      refine wp_seq (wp_upsertCursor h) fun marks ws s h => ?_
      exact wp_within_bind hA (commitOnly_within hE) h fun _ _ _ h => h
  refine wp_within_bind hA (.read hE) h fun direct ws s h => ?_
  refine wp_within_bind hA (.read hE) h fun group ws s h => ?_
  refine wp_seq (Q := fun _ ws s => Ahead ws s) ?_ fun _ _ _ h => h
  cases ack with
  | true =>
    refine wp_within (p := .rollback (.effect Label.answer _)) hA ?_ h
    exact Prog.within_rollback.mpr (.effect fun _ _ => trivial)
  | false =>
    refine wp_seq (Q := fun _ ws s => Ahead ws s) ?_ fun _ ws s h => ?_
    · refine wp_within_bind hA (seedMarks_within hE D floor.cursor) h fun seeds ws s h => ?_
      refine wp_seq (wp_upsertCursor h) fun _ ws s h => ?_
      exact wp_reapBelowMin carried_ahead (fun _ _ _ h => h) h
    · exact wp_within hA (p := .commit .commit _ (pure ())) ⟨fun _ => trivial, trivial⟩ h

/-! ## Acks -/

section Ack

variable {u : Uin} {D : DeviceId} {body : AckIn} {dev : ℕ} {c₀ c c' : QueueCursor}

/-- The install's cursor is at the marks `c₀` or beyond. -/
def Reached (u : Uin) (D : DeviceId) (c₀ : QueueCursor) (s : State) : Prop :=
  ∃ c, s.db.queueCursors.get (u, D) = some c ∧ ∀ ax, c₀.mark ax ≤ c.mark ax

theorem Reached.rely (h : Reached u D c₀ s) (hrely : Rely ws s s') : Reached u D c₀ s' := by
  obtain ⟨c, hc, hle⟩ := h
  obtain ⟨c', hc', hle'⟩ := hrely.forward u D c hc
  exact ⟨c', hc', fun ax => (hle ax).trans (hle' ax)⟩

/-- The walk from `base` to `m` over the ids of an ack. -/
structure Walked (x : ℕ × Request) (n₀ : ℕ) (ax₀ : Axis) (id₀ : ℕ) (row₀ : QueuedRow) (u : Uin)
    (dev : ℕ) (ids : List ℕ) (ax : Axis) (base m : ℕ) : Prop where
  forward : base ≤ m
  idle : ids = [] → m = base
  named : x.1 = n₀ → ax = ax₀ → row₀.toUin = u → row₀.visibleTo (walkedAs dev ax) →
    base < id₀ → id₀ ≤ m → id₀ ∈ ids

theorem wp_drainFloor (hx : x.2 = .ackQueue u D body dev) :
    (outline n₀ ax₀ id₀ row₀).wp x (drainFloor u D)
      (fun floor ws s => ws = [] ∧ ∃ c₀, floor = ⟨c₀.mark .direct, c₀.mark .group, some c₀⟩ ∧
        Reached u D c₀ s) [] s := by
  refine wp_bind.mpr (wp_query guar_refl fun s₁ _ _ hcond => ?_)
  obtain ⟨c₀, hc₀⟩ := hcond.1.2 rfl (u, D) (by rw [hx]; rfl)
  rw [view_nil, hc₀]
  exact ⟨rfl, c₀, rfl, c₀, hc₀, fun _ => le_rfl⟩

theorem wp_ackedPrefix (dev : ℕ) (ax : Axis) (ids : List ℕ) (h : Reached u D c₀ s) :
    (outline n₀ ax₀ id₀ row₀).wp x (ackedPrefix ax u (c₀.mark ax) ids (walkedAs dev ax))
      (fun m ws s => ws = [] ∧ Reached u D c₀ s ∧
        Walked x n₀ ax₀ id₀ row₀ u dev ids ax (c₀.mark ax) m) [] s := by
  unfold ackedPrefix
  split
  · refine ⟨rfl, h, le_rfl, fun _ => rfl, fun _ _ _ _ hlt hle => ?_⟩
    omega
  rename_i hids
  refine wp_query guar_refl fun s₁ hrely _ hcond => ⟨rfl, h.rely hrely, ?_⟩
  rw [view_nil]
  have hmem : ∀ id, id ∈ ((s₁.db.rowsAbove ax u (c₀.mark ax) (walkedAs dev ax)).map
      Prod.fst).insertionSort (· ≤ ·) ↔ c₀.mark ax < id ∧
        ∃ row, (s₁.db.queue ax).get id = some row ∧ row.toUin = u ∧
          row.visibleTo (walkedAs dev ax) := by
    intro id
    rw [mem_insertionSort, mem_rowsAbove]
  refine ⟨?_, fun hnil => absurd hnil hids, ?_⟩
  · rcases ackedEnd_eq_or_mem ids (c₀.mark ax) (((s₁.db.rowsAbove ax u (c₀.mark ax)
      (walkedAs dev ax)).map Prod.fst).insertionSort (· ≤ ·)) with heq | hend
    · exact heq.ge
    · exact ((hmem _).mp hend).1.le
  · -- the row is among those that the walk goes over
    rintro hn rfl huin hvisible hlt hle
    have hrow := (hmem id₀).mpr ⟨hlt, row₀, hcond.2 hn rfl, huin, hvisible⟩
    rcases acked_of_le_ackedEnd (pairwise_insertionSort _ _) id₀ hrow hle with hin | hbase
    · exact hin
    · omega

/-- The ack has written its cursor: `c` is what is committed, `c'` what is pending. -/
structure Written (u : Uin) (D : DeviceId) (c c' : QueueCursor) (ws : List Write) (s : State) :
    Prop where
  ahead : Ahead ws s
  committed : s.db.queueCursors.get (u, D) = some c
  pending : (s.view ws).queueCursors.get (u, D) = some c'
  locked : RowKey.cursor u D ∈ lockedRows Db ws

theorem Written.rely (h : Written u D c c' ws s) (hrely : Rely ws s s') :
    Written u D c c' ws s' := by
  have hsame := hrely.locked u D h.locked
  exact ⟨h.ahead.rely hrely, hsame.trans h.committed,
    (cursor_view_congr hsame).trans h.pending, h.locked⟩

theorem carried_written :
    (outline n₀ ax₀ id₀ row₀).Carried x (fun _ => True) NoCursor (Written u D c c') where
  stable _ _ _ _ _ h hrely _ := h.rely hrely
  write := by
    intro ws s new h _ hnew
    refine ⟨h.ahead.append hnew, h.committed, ?_, ?_⟩
    · rw [cursor_view_noCursor hnew]
      exact h.pending
    · rw [lockedRows, map_append]
      exact mem_append_left _ h.locked

theorem wp_advanceCursor {m : Axis → ℕ} (h : Reached u D c₀ s) :
    (outline n₀ ax₀ id₀ row₀).wp x (advanceCursor u D (m .direct) (m .group) (some c₀))
      (fun _ ws s => ∃ c c', Written u D c c' ws s ∧
        ∀ ax, c₀.mark ax ≤ c.mark ax ∧ c'.mark ax = max (c.mark ax) (m ax)) [] s := by
  -- an install that has a cursor needs no seeds
  show (outline n₀ ax₀ id₀ row₀).wp x ((upsertCursor .advanceCursor u D (m .direct) (m .group)
    0 0).bind fun _ => reapBelowMin u) _ [] s
  refine wp_seq (Q := fun _ ws s => ∃ c c', Written u D c c' ws s ∧
    ∀ ax, c₀.mark ax ≤ c.mark ax ∧ c'.mark ax = max (c.mark ax) (m ax)) ?_ ?_
  · refine wp_bind.mpr (wp_query guar_refl fun s₁ hrely₁ _ _ => ?_)
    refine wp_update guar_refl fun s₂ hrely₂ _ _ => ?_
    obtain ⟨c, hc, hle⟩ := (h.rely hrely₁).rely hrely₂
    have hahead : Ahead [] s₂ := .refl s₂.db
    refine ⟨c, .upsert (some c) (m .direct) (m .group) 0 0 s₁.ext.now,
      ⟨hahead.upsert u D _ _ 0 0 _, hc, ?_, ?_⟩, fun ax => ⟨hle ax, ?_⟩⟩
    · rw [view_concat_cursor, if_pos rfl]
      simp only [view_nil, hc]
    · exact mem_singleton.mpr rfl
    · rw [upsert_mark]
      cases ax <;> rfl
  · rintro _ ws s ⟨c, c', hwritten, hmarks⟩
    refine wp_mono (wp_reapBelowMin carried_written (fun _ _ _ h =>
      ⟨h.ahead, h.committed, h.pending, h.locked⟩) hwritten) ?_
    exact fun _ ws s h => ⟨c, c', h, hmarks⟩

/-- The ack commits a cursor that has moved over ids that it names. -/
theorem Written.movesOwn {m : Axis → ℕ} (h : Written u D c c' ws s)
    (hmarks : ∀ ax, c₀.mark ax ≤ c.mark ax ∧ c'.mark ax = max (c.mark ax) (m ax))
    (hwalked : ∀ ax, Walked x n₀ ax₀ id₀ row₀ u dev (body.ids ax) ax (c₀.mark ax) (m ax))
    (hx : x.2 = .ackQueue u D body dev) : MovesOwn n₀ ax₀ id₀ row₀ x s.db (s.view ws) := by
  obtain ⟨n, r⟩ := x
  obtain rfl : r = .ackQueue u D body dev := hx
  intro old new hold hnew
  obtain rfl := some.inj (h.committed.symm.trans hold)
  obtain rfl := some.inj (h.pending.symm.trans hnew)
  constructor
  · intro ax hids
    have hidle := (hwalked ax).idle hids
    obtain ⟨hle, hmax⟩ := hmarks ax
    omega
  · intro hn huin hvisible hlt hle
    obtain ⟨hbase, hmax⟩ := hmarks ax₀
    exact (hwalked ax₀).named hn rfl huin hvisible (by omega) (by omega)

theorem wp_ackQueue (hx : x.2 = .ackQueue u D body dev) :
    (outline n₀ ax₀ id₀ row₀).Safe x (ackQueue u D body dev) [] s := by
  refine wp_seq (wp_drainFloor hx) ?_
  rintro _ ws s ⟨rfl, c₀, rfl, hreached⟩
  refine wp_seq (wp_ackedPrefix dev .direct body.directIds hreached) ?_
  rintro direct ws s ⟨rfl, hreached, hdirect⟩
  refine wp_seq (wp_ackedPrefix dev .group body.groupIds hreached) ?_
  rintro group ws s ⟨rfl, hreached, hgroup⟩
  let m : Axis → ℕ
    | .direct => direct
    | .group => group
  refine wp_seq (wp_advanceCursor (m := m) hreached) ?_
  rintro reaped ws s ⟨c, c', hwritten, hmarks⟩
  refine wp_commit fun s' hrely _ _ => ⟨⟨trivial, ?_⟩, trivial⟩
  have hnow := hwritten.rely hrely
  refine hnow.ahead.guar_commit _ (hnow.movesOwn hmarks (fun ax => ?_) hx)
  cases ax with
  | direct => exact hdirect
  | group => exact hgroup

end Ack

/-! ## Every request -/

/-- A request that writes no cursor. -/
theorem safe_of_noCursor {α : Type} {p : Handler α}
    (hx : ∀ db db', MovesOwn n₀ ax₀ id₀ row₀ x db db') (hp : p.Within NoCursor fun _ _ => True) :
    (outline n₀ ax₀ id₀ row₀).Safe x p [] s :=
  safe_within (framed_ahead hx) hp (.refl s.db)

theorem handler_safe (cfg : Config) (x : ℕ × Request) (s : State) :
    (outline n₀ ax₀ id₀ row₀).Safe x (handler cfg x.2) [] s := by
  obtain ⟨n, r⟩ := x
  cases r with
  | fetchQueue u D ack dev =>
    refine safe_map (wp_mono (wp_fetchQueue ?_) fun _ _ _ _ => trivial) _
    exact fun _ _ => trivial
  | ackQueue u D body dev => exact safe_map (wp_ackQueue rfl) _
  | tick seconds =>
    refine safe_map (safe_of_noCursor ?_ (.effect fun _ _ => trivial)) _
    exact fun _ _ => trivial
  | _ =>
    refine safe_map (safe_of_noCursor ?_ (by simp [NoCursor.eq_def])) _
    exact fun _ _ => trivial

end Marks

/-! ## Runs -/

/-- The scheduling condition: an ack reads its floor from a cursor, and no cursor is dropped. -/
def Calmly (w : World) : Action Request → Prop
  | .step n => ∀ x ∈ w.upcoming n, Calm x.1 x.2 w.shared
  | _ => True

/-- The row is there when session `n` walks over the rows of its axis. -/
def Finds (n : ℕ) (ax : Axis) (id : ℕ) (row : QueuedRow) (w : World) : Action Request → Prop
  | .step m => m = n → ∀ x ∈ w.upcoming n, x.2 = .ackedPrefix ax →
      (w.shared.db.queue ax).get id = some row
  | _ => True

section Decidable

instance (r : Request) (l : Label) (s : State) : Decidable (Calm r l s) :=
  inferInstanceAs (Decidable (_ ∧ _))

instance : DecidableRel Calmly := by
  rintro w (_ | _) <;> unfold Calmly <;> infer_instance

instance (n : ℕ) (ax : Axis) (id : ℕ) (row : QueuedRow) (w : World) (a : Action Request) :
    Decidable (Finds n ax id row w a) := by
  rcases a with _ | _ <;> unfold Finds <;> infer_instance

end Decidable

section Runs

variable {cfg : Config} {n id : ℕ} {ax : Axis} {row : QueuedRow} {w w₀ w₁ w' : World}
  {a : Action Request} {users : Table Uin UserRow} {groups : Table GroupId GroupRow}
  {members : Table (GroupId × Uin) Unit} {now : Time}

private theorem allows_of_calmly (hcalm : Calmly w a) (hfinds : Finds n ax id row w a) :
    (Marks.outline n ax id row).AllowsBeside (fun _ _ => True) w a := by
  cases a with
  | start r => exact ⟨trivial, fun _ _ _ _ _ => ⟨trivial, trivial⟩⟩
  | step m =>
    intro r p ws hm
    refine ⟨fun l hl => ⟨?_, ?_⟩, fun _ _ _ _ _ _ _ _ _ => trivial⟩
    · exact hcalm (r, l) (upcoming_of_running hm hl)
    · rintro rfl hlabel
      exact hfinds rfl (r, l) (upcoming_of_running hm hl) hlabel
  | kill m => exact trivial

/-- A session that is not there yet walks over nothing. -/
private theorem finds_of_le (hle : w.sessions.length ≤ n) : Finds n ax id row w a := by
  cases a with
  | step m =>
    rintro rfl x hx
    simp [upcoming, getElem?_eq_none hle] at hx
  | _ => exact trivial

private theorem good_of_run (hrun : Run (handler cfg)
      (fun w a => Calmly w a ∧ Finds n ax id row w a) w w')
    (hgood : (Marks.outline n ax id row).GoodBeside (fun _ _ => True) (fun _ _ _ _ => True) w) :
    (Marks.outline n ax id row).GoodBeside (fun _ _ => True) (fun _ _ _ _ => True) w' :=
  hgood.of_run Marks.coherent (fun _ _ _ _ _ _ _ _ => trivial)
    (fun n r s _ _ => Marks.handler_safe cfg (n, r) s)
    (hrun.mono fun _ _ h => allows_of_calmly h.1 h.2)

/-- Before session `n` starts every calm run is good for it. -/
private theorem good_of_calm (hrun : Run (handler cfg) Calmly
      (.fresh (.empty users groups members) (.initial now)) w) (hle : w.sessions.length ≤ n) :
    (Marks.outline n ax id row).GoodBeside (fun _ _ => True) (fun _ _ _ _ => True) w :=
  good_of_run (hrun.bounded.mono fun _ _ h => ⟨h.1, finds_of_le (h.2.trans hle)⟩)
    (goodBeside_fresh trivial)

private theorem guar_of_next {m : ℕ} {r : Request}
    (hgood : (Marks.outline n ax id row).GoodBeside (fun _ _ => True) (fun _ _ _ _ => True) w)
    (hcalm : Calmly w (.step m)) (hfinds : Finds n ax id row w (.step m))
    (hnext : w.next (handler cfg) (.step m) = some w') (hr : w.request? m = some r) :
    Forward w.shared.db w'.shared.db ∧ MovesOwn n ax id row (m, r) w.shared.db w'.shared.db := by
  rcases hgood.step Marks.coherent (allows_of_calmly hcalm hfinds) hnext with
    heq | ⟨r', l, ws, hup, hstep⟩
  · rw [heq]
    exact ⟨.refl _, Marks.movesOwn_refl _ _⟩
  · obtain rfl := some.inj (hr.symm.trans (request?_of_upcoming hup))
    exact ⟨hstep.guar.forward, hstep.guar.own⟩

/-- What a calm step does whatever rows there are: the row below is for a session that is yet to
come. -/
private theorem calm_step {m : ℕ} {r : Request} (hrun : Run (handler cfg) Calmly
      (.fresh (.empty users groups members) (.initial now)) w) (hcalm : Calmly w (.step m))
    (hnext : w.next (handler cfg) (.step m) = some w') (hr : w.request? m = some r) :
    Forward w.shared.db w'.shared.db ∧ MovesOwn w.sessions.length .direct 0
      ⟨0, .message, none, "", 0, none, none, none⟩ (m, r) w.shared.db w'.shared.db :=
  guar_of_next (good_of_calm hrun le_rfl) hcalm (finds_of_le le_rfl) hnext hr

private theorem forward_of_next (hrun : Run (handler cfg) Calmly
      (.fresh (.empty users groups members) (.initial now)) w)
    (hcalm : Calmly w a) (hnext : w.next (handler cfg) a = some w') :
    Forward w.shared.db w'.shared.db := by
  cases a with
  | start r =>
    simp only [World.next, some.injEq] at hnext
    subst hnext
    exact .refl _
  | step m =>
    obtain ⟨r, p, ws, hm, -⟩ := next_step_cases hnext
    exact (calm_step hrun hcalm hnext (request?_of_running hm)).1
  | kill m =>
    obtain ⟨r, p, ws, -, rfl⟩ := next_kill_cases hnext
    exact .refl _

/-- **Acks.**  In every run whose acks read their floor from a cursor and whose reaps drop no
cursor, marks only grow; and what an ack commits leaves the axis that it does not name, and goes
over no row of its install that was there when it walked and that it does not name. -/
theorem ack_moves_over_named_ids (hrun : Run (handler cfg) Calmly
      (.fresh (.empty users groups members) (.initial now)) w₀) :
    (∀ w, Run (handler cfg) Calmly w₀ w → Forward w₀.shared.db w.shared.db) ∧
    ∀ u D body dev w₁ w₂ w₃ c c',
      w₀.next (handler cfg) (.start (.ackQueue u D body dev)) = some w₁ →
      Run (handler cfg) Calmly w₁ w₂ → Calmly w₂ (.step w₀.sessions.length) →
      w₂.next (handler cfg) (.step w₀.sessions.length) = some w₃ →
      w₂.shared.db.queueCursors.get (u, D) = some c →
      w₃.shared.db.queueCursors.get (u, D) = some c' →
        (∀ ax, body.ids ax = [] → c'.mark ax = c.mark ax) ∧ ∀ ax id row, Run (handler cfg)
            (fun w a => Calmly w a ∧ Finds w₀.sessions.length ax id row w a) w₁ w₂ →
          Finds w₀.sessions.length ax id row w₂ (.step w₀.sessions.length) →
          row.toUin = u → row.visibleTo (walkedAs dev ax) → c.mark ax < id → id ≤ c'.mark ax →
            id ∈ body.ids ax := by
  constructor
  · intro w hlater
    induction hlater with
    | refl => exact .refl _
    | tail hbefore hlast ih =>
      obtain ⟨a, hcalm, hnext⟩ := hlast
      exact ih.trans (forward_of_next (hrun.trans hbefore) hcalm hnext)
  intro u D body dev w₁ w₂ w₃ c c' hstart hlater hcalm hnext hc hc'
  -- the session that steps serves the ack
  have hrequest : w₂.request? w₀.sessions.length = some (.ackQueue u D body dev) := by
    refine hlater.request ?_
    simp only [World.next, some.injEq] at hstart
    subst hstart
    simp [request?, Session.request]
  have hcalmStart : Calmly w₀ (.start (.ackQueue u D body dev)) := trivial
  refine ⟨?_, fun ax id row hfound hfinds => ?_⟩
  · have hrun₂ := (hrun.tail ⟨_, hcalmStart, hstart⟩).trans hlater
    exact ((calm_step hrun₂ hcalm hnext hrequest).2 c c' hc hc').1
  · have hgood : (Marks.outline w₀.sessions.length ax id row).GoodBeside (fun _ _ => True)
        (fun _ _ _ _ => True) w₂ := by
      refine good_of_run (.head ⟨_, ⟨hcalmStart, trivial⟩, hstart⟩ hfound) ?_
      exact good_of_calm hrun le_rfl
    exact ((guar_of_next hgood hcalm hfinds hnext hrequest).2 c c' hc hc').2 rfl

end Runs

/-- Install 1 has pinned its cursor and a row has arrived. -/
def pinnedSchedule : List (Action Request) :=
  .start (Request.fetchQueue 7 1 true 1) :: steps 0 20 ++ .start (deposit none) :: steps 1 20

theorem ack_moves_over_named_ids_pinned :
    let w₁ := (after pinnedSchedule).play (handler ⟨14, false⟩)
      [.start (Request.ackQueue 7 1 ⟨[1], []⟩ 1)]
    let w₂ := w₁.play (handler ⟨14, false⟩) (steps 2 7)
    let w₃ := w₂.play (handler ⟨14, false⟩) [.step 2]
    Forward (after pinnedSchedule).shared.db w₁.shared.db ∧
      ∃ c c', w₂.shared.db.queueCursors.get (7, 1) = some c ∧
        w₃.shared.db.queueCursors.get (7, 1) = some c' ∧ c.mark .direct = 0 ∧
        c'.mark .direct = 1 ∧ c'.mark .group = c.mark .group ∧ 1 ∈ [1] := by
  intro w₁ w₂ w₃
  have hrun : Run (handler ⟨14, false⟩) Calmly oneMember (after pinnedSchedule) :=
    .of_play _ (by decide +kernel)
  obtain ⟨hforward, hack⟩ := ack_moves_over_named_ids hrun
  -- the row stays while the ack goes on
  let row : QueuedRow := ⟨7, .message, some 1, "sealed", 1000, some 1, none, none⟩
  have hlater : Run (handler ⟨14, false⟩)
      (fun w a => Calmly w a ∧ Finds 2 .direct 1 row w a) w₁ w₂ :=
    .of_play (steps 2 7) (by decide +kernel)
  have hcalm : Run (handler ⟨14, false⟩) Calmly w₁ w₂ := hlater.mono fun _ _ h => h.1
  have hlength : (after pinnedSchedule).sessions.length = 2 := by decide +kernel
  rw [hlength] at hack
  have hmarks := hack 7 1 ⟨[1], []⟩ 1 w₁ w₂ w₃ ⟨0, 0, some 1000⟩ ⟨1, 0, some 1000⟩ rfl hcalm
    (by decide +kernel) (next_eq_play (by decide +kernel)) (by decide +kernel)
    (by decide +kernel)
  refine ⟨hforward w₁ (.of_play _ (by decide +kernel)), _, _, by decide +kernel,
    by decide +kernel, rfl, rfl, hmarks.1 .group rfl, ?_⟩
  exact hmarks.2 .direct 1 row hlater (by decide +kernel) rfl rfl (by decide) (by decide)

/-- A 1:1 row and a group row wait for installs 1, 2 and 3; a fetch of install 1 finds no cursor
and reads the watermark 0; install 2 acks both rows; an ack of install 1 finds no cursor and reads
the watermark 1; the fetch pins the cursor at 0; the ack goes on up to its commit. -/
def liftedSchedule : List (Action Request) :=
  .start (deposit none) :: steps 0 20 ++ .start (post "one") :: steps 1 20 ++
    .start (Request.fetchQueue 7 2 true 1) :: steps 2 20 ++
    .start (Request.fetchQueue 7 3 true 1) :: steps 3 20 ++
    .start (Request.fetchQueue 7 1 true 1) :: steps 4 2 ++
    .start (Request.ackQueue 7 2 ⟨[1], [1]⟩ 1) :: steps 5 20 ++
    .start (Request.ackQueue 7 1 ⟨[], []⟩ 1) :: steps 6 2 ++ steps 4 20 ++ steps 6 5

/-- An ack without ids can lift both marks of its install over rows that are there all the time. -/
theorem empty_ack_passes_rows : ∃ (w w' : World) (n : ℕ) (c c' : QueueCursor),
    Run (handler ⟨14, false⟩) (fun _ _ => True) oneMember w ∧
      w.upcoming n = some (.ackQueue 7 1 ⟨[], []⟩ 1, .commit) ∧
      w.next (handler ⟨14, false⟩) (.step n) = some w' ∧
      w.shared.db.queueCursors.get (7, 1) = some c ∧
      w'.shared.db.queueCursors.get (7, 1) = some c' ∧
      ∀ ax ∈ [Axis.direct, Axis.group], c.mark ax = 0 ∧ c'.mark ax = 1 ∧
        ∃ row ∈ (w'.shared.db.queue ax).get 1, row.toUin = 7 ∧ row.visibleTo (walkedAs 1 ax) := by
  refine ⟨after liftedSchedule, (after liftedSchedule).play (handler ⟨14, false⟩) [.step 6], 6,
    ⟨0, 0, some 1000⟩, ⟨1, 1, some 1000⟩, .of_play _ (by decide +kernel), by decide +kernel,
    next_eq_play (by decide +kernel), by decide +kernel, by decide +kernel, ?_⟩
  decide +kernel

end RcqServer.Queue
