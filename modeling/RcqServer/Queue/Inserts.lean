import RcqServer.Queue.Owed

/-!
# The writers keep the invariant

A transaction that inserts rows carries the assertion `Inserts`: every row it has inserted has an
id above all ids that have been visible for the account, and stays so until the commit.  For a 1:1
deposit that is the mailbox lock, taken before the id is; for a group post it is the scheduling
condition.

`Inserts` also holds of a transaction that inserts nothing, so the frame rule covers every handler
that leaves the queue and its cursors alone.
-/

namespace RcqServer.Queue

open ReadCommitted Messages List Shared

variable {ax : Axis} {lane : Lane} {s s' : State} {u : Uin} {D : DeviceId} {id : ℕ}

/-! ## Owed rows -/

theorem OwedIn.ever {db : Db} {past : List Db} (h : OwedIn ax lane u D id db past) :
    ∃ d ∈ db :: past, Holds ax d u id := by
  induction h with
  | appeared hcursor hrow hnew hbefore =>
    obtain ⟨row, hget, huin, -⟩ := hrow
    exact ⟨_, mem_cons_self, row, hget, huin⟩
  | kept hcursor hold ih =>
    obtain ⟨d, hd, hholds⟩ := ih
    exact ⟨d, mem_cons_of_mem _ hd, hholds⟩

theorem Owed.ever (h : Owed ax lane s u D id) : Ever ax s u id := OwedIn.ever h

theorem OwedIn.hasCursor {db : Db} {past : List Db} (h : OwedIn ax lane u D id db past) :
    HasCursor db u D := by
  cases h with
  | appeared hcursor _ _ _ => exact hcursor
  | kept hcursor _ => exact hcursor

theorem Owed.hasCursor (h : Owed ax lane s u D id) : HasCursor s.db u D := OwedIn.hasCursor h

theorem owedIn_cons {db prev : Db} {past : List Db} :
    OwedIn ax lane u D id db (prev :: past) ↔ HasCursor db u D ∧
      ((Tracks ax lane db u D id ∧ ¬Holds ax prev u id ∧ HasCursor prev u D) ∨
        OwedIn ax lane u D id prev past) := by
  constructor
  · rintro (⟨hcursor, hrow, hnew, hbefore⟩ | ⟨hcursor, hold⟩)
    · exact ⟨hcursor, .inl ⟨hrow, hnew, hbefore⟩⟩
    · exact ⟨hcursor, .inr hold⟩
  · rintro ⟨hcursor, ⟨hrow, hnew, hbefore⟩ | hold⟩
    · exact .appeared hcursor hrow hnew hbefore
    · exact .kept hcursor hold

theorem owed_commit {ws : List Write} {e : Ext} :
    Owed ax lane (s.commit ws e) u D id ↔ HasCursor (s.view ws) u D ∧
      ((Tracks ax lane (s.view ws) u D id ∧ ¬Holds ax s.db u id ∧ HasCursor s.db u D) ∨
        Owed ax lane s u D id) := owedIn_cons

theorem ever_commit {ws : List Write} {e : Ext} :
    Ever ax (s.commit ws e) u id ↔ Holds ax (s.view ws) u id ∨ Ever ax s u id := by
  simp [Ever]

theorem Bounded.mono {m : ℕ} (h : Bounded ax s u m)
    (hever : ∀ id, Ever ax s u id → Ever ax s' u id) : Bounded ax s' u m := by
  rcases h with hzero | ⟨id, hid, hle⟩
  · exact .inl hzero
  · exact .inr ⟨id, hever id hid, hle⟩

theorem Bounded.max {m m' : ℕ} (h : Bounded ax s u m) (h' : Bounded ax s u m') :
    Bounded ax s u (Max.max m m') := by
  rcases Nat.le_total m m' with hle | hle
  · rwa [Nat.max_eq_right hle]
  · rwa [Nat.max_eq_left hle]

/-- What becomes visible later lies above every mark. -/
theorem Bounded.lt_of_fresh {m : ℕ} (h : Bounded ax s u m) (hgrows : Grows ax lane s s')
    (hinv : Inv ax lane s') (hid : Ever ax s' u id) (hnew : ¬Ever ax s u id) : m < id := by
  rcases h with rfl | ⟨id', hid', hle⟩
  · exact (hinv.fresh u id hid).1
  · exact Nat.lt_of_le_of_lt hle (hgrows.fresh u id hid hnew id' hid')

/-! ## Coherence -/

theorem Grows.refl (s : State) : Grows ax lane s s where
  ever := fun _ _ h => h
  fresh := fun _ _ h hnew => absurd h hnew
  owed := fun _ _ _ h => .inl h
  settled := fun _ _ _ h => h
  handed := fun _ h => h
  next := le_rfl

theorem Grows.trans {s'' : State} (h : Grows ax lane s s') (h' : Grows ax lane s' s'') :
    Grows ax lane s s'' where
  ever := fun u id hid => h'.ever u id (h.ever u id hid)
  fresh := by
    intro u id hid hnew id' hid'
    by_cases hmid : Ever ax s' u id
    · exact h.fresh u id hmid hnew id' hid'
    · exact h'.fresh u id hid hmid id' (h.ever u id' hid')
  owed := by
    intro u D id howed
    rcases h'.owed u D id howed with hmid | hnew
    · exact h.owed u D id hmid
    · exact .inr fun hold => hnew (h.ever u id hold)
  settled := fun u D id hs => h'.settled u D id (h.settled u D id hs)
  handed := fun event he => h'.handed event (h.handed event he)
  next := h.next.trans h'.next

/-- Nothing but the history of answers and the sequences moves. -/
theorem Grows.tell {e : Ext} (hsettled : ∀ u D id, Settled ax s.ext u D id → Settled ax e u D id)
    (hhanded : ∀ event ∈ s.ext.handed, event ∈ e.handed) (hnext : s.ext.nextId ax ≤ e.nextId ax) :
    Grows ax lane s (s.tell e) where
  ever := fun _ _ h => h
  fresh := fun _ _ h hnew => absurd h hnew
  owed := fun _ _ _ h => .inl h
  settled := hsettled
  handed := hhanded
  next := hnext

theorem Guar.of_tell {ws : List Write} {e : Ext} (h : Grows ax lane s (s.tell e)) :
    Guar ax lane ws s (s.tell e) where
  toGrows := h
  still := fun _ => rfl
  inserts := fun _ _ hid hnew => absurd hid hnew

theorem outline_coherent (ax : Axis) (lane : Lane) : (outline ax lane).Coherent where
  rely_refl := by
    intro _ _ ws s
    exact ⟨Grows.refl s, fun _ _ _ _ h => h, fun _ _ _ h => h, fun _ _ _ _ _ h => .inl h⟩
  rely_trans := by
    intro _ _ ws s₁ s₂ s₃ h h'
    refine ⟨h.toGrows.trans h'.toGrows, ?_, ?_, ?_⟩
    · exact fun hax u id hlock hid => h.mailbox hax u id hlock (h'.mailbox hax u id hlock hid)
    · exact fun id hlock u hid => h.pending id hlock u (h'.pending id hlock u hid)
    · intro hax id row hrow id' hid'
      rcases h'.ahead hax id row hrow id' hid' with hmid | hlt
      · exact h.ahead hax id row hrow id' hmid
      · exact .inr hlt
  guar_refl := fun _ _ ws s =>
    Guar.of_tell (e := s.ext) (Grows.tell (fun _ _ _ h => h) (fun _ h => h) le_rfl)
  rely_of_guar := by
    intro _ _ ws _ _ ws' s s' _ hstep hlocks hapart
    have hguar : Guar ax lane ws s s' := hstep.guar
    refine ⟨hguar.toGrows, ?_, ?_, ?_⟩
    · intro hax u id hlock hid
      by_contra hnew
      obtain ⟨row, -, -, hmailbox⟩ := hguar.inserts u id hid hnew
      exact hlocks _ hlock (hmailbox hax)
    · intro id hlock u hid
      by_contra hnew
      obtain ⟨row, hrow, -⟩ := hguar.inserts u id hid hnew
      exact hlocks _ hlock (key_mem_lockedRows hrow)
    · intro hax id row hrow id' hid'
      by_cases hnew : Ever ax s row.toUin id'
      · exact .inl hnew
      obtain ⟨row', hrow', huin, -⟩ := hguar.inserts _ id' hid' hnew
      rcases hapart with hsame | hapart
      · -- the step was no commit, so nothing became visible
        exfalso
        apply hnew
        simpa only [Ever, hguar.still hsame, hsame] using hid'
      · subst hax
        exact .inr (hapart rfl id' id row' row hrow' hrow huin)

/-! ## Pending inserts -/

/-- The pending writes leave cursors alone, delete no row, and every row that they insert has an
id above all that have been visible for its account. -/
structure Inserts (ax : Axis) (ws : List Write) (s : State) : Prop where
  cursors : ∀ u D row, Write.cursor u D row ∉ ws
  rows : ∀ id row, Write.queued ax id row ∈ ws → ∃ r, row = some r ∧
    0 < id ∧ id < s.ext.nextId ax ∧ (∀ u, ¬Ever ax s u id) ∧
    (∀ id', Ever ax s r.toUin id' → id' < id) ∧
    (ax = .direct → RowKey.mailboxSeq r.toUin ∈ lockedRows Db ws)

/-- A write that has nothing to do with the queue. -/
def Foreign (ax : Axis) (w : Write) : Prop :=
  (∀ u D row, w ≠ .cursor u D row) ∧ ∀ id row, w ≠ .queued ax id row

/-- An effect that has nothing to do with the queue. -/
def Idle (ax : Axis) (e e' : Ext) : Prop :=
  e'.nextId ax = e.nextId ax ∧ e'.handed = e.handed ∧ e'.drained = e.drained ∧ e'.acked = e.acked

theorem Inserts.nil (s : State) : Inserts ax [] s :=
  ⟨fun _ _ _ h => (not_mem_nil h).elim, fun _ _ h => (not_mem_nil h).elim⟩

theorem Inserts.stable {ws : List Write} (h : Inserts ax ws s) (hrely : Rely ax lane ws s s') :
    Inserts ax ws s' := by
  refine ⟨h.cursors, fun id row hrow => ?_⟩
  obtain ⟨r, rfl, hpos, hnext, hunseen, habove, hlock⟩ := h.rows id row hrow
  have hkey : RowKey.queued ax id ∈ lockedRows Db ws := key_mem_lockedRows hrow
  refine ⟨r, rfl, hpos, hnext.trans_le hrely.next, ?_, ?_, hlock⟩
  · exact fun u hu => hunseen u (hrely.pending id hkey u hu)
  · intro id' hid'
    cases hax : ax with
    | direct =>
      exact habove id' (hrely.mailbox hax _ id' (hlock hax) hid')
    | group =>
      rcases hrely.ahead hax id r hrow id' hid' with hold | hlt
      · exact habove id' hold
      · exact hlt

theorem Inserts.append {ws new : List Write} {e : Ext} (h : Inserts ax ws s)
    (hnext : s.ext.nextId ax ≤ e.nextId ax) (hcursors : ∀ u D row, Write.cursor u D row ∉ new)
    (hrows : ∀ id row, Write.queued ax id row ∈ new → ∃ r, row = some r ∧
      0 < id ∧ id < e.nextId ax ∧ (∀ u, ¬Ever ax s u id) ∧
      (∀ id', Ever ax s r.toUin id' → id' < id) ∧
      (ax = .direct → RowKey.mailboxSeq r.toUin ∈ lockedRows Db (ws ++ new))) :
    Inserts ax (ws ++ new) (s.tell e) := by
  refine ⟨?_, ?_⟩
  · intro u D row hmem
    rcases mem_append.mp hmem with hmem | hmem
    · exact h.cursors u D row hmem
    · exact hcursors u D row hmem
  · intro id row hmem
    rcases mem_append.mp hmem with hmem | hmem
    · obtain ⟨r, rfl, hpos, hlt, hunseen, habove, hlock⟩ := h.rows id row hmem
      refine ⟨r, rfl, hpos, hlt.trans_le hnext, hunseen, habove, fun hax => ?_⟩
      simp only [lockedRows, map_append]
      exact mem_append_left _ (hlock hax)
    · exact hrows id row hmem

theorem Inserts.append_foreign {ws new : List Write} {e : Ext} (h : Inserts ax ws s)
    (hnext : s.ext.nextId ax ≤ e.nextId ax) (hnew : ∀ w ∈ new, Foreign ax w) :
    Inserts ax (ws ++ new) (s.tell e) :=
  h.append hnext (fun u D row hmem => (hnew _ hmem).1 u D row rfl)
    fun id row hmem => ((hnew _ hmem).2 id row rfl).elim

/-! ## Steps that leave the tables alone -/

theorem step_tell {ws : List Write} {e : Ext} (hinv : Inv ax lane s)
    (hnext : s.ext.nextId ax ≤ e.nextId ax) (hhanded : ∀ event ∈ s.ext.handed, event ∈ e.handed)
    (hsettled : ∀ u D id, Settled ax s.ext u D id → Settled ax e u D id)
    (hhonest : ∀ event ∈ e.acked, event ∈ e.handed)
    (hdrained : ∀ event ∈ e.drained, event ∈ e.handed) (r : Request) {l : Label} :
    (outline ax lane).Step r l ws s (s.tell e) where
  inv := {
    start := hinv.start.trans_le hnext
    fresh := fun u id hid => ⟨(hinv.fresh u id hid).1, (hinv.fresh u id hid).2.trans_le hnext⟩
    owner := hinv.owner
    honest := hhonest
    drained := hdrained
    marks := hinv.marks
    passed := fun u D c id hc howed hle => hsettled u D id (hinv.passed u D c id hc howed hle)
    kept := fun u D id howed hgone => hsettled u D id (hinv.kept u D id howed hgone)
    tracks := hinv.tracks }
  guar := Guar.of_tell (Grows.tell hsettled hhanded hnext)

theorem step_idle {ws : List Write} {e : Ext} (hinv : Inv ax lane s) (he : Idle ax s.ext e)
    (r : Request) {l : Label} : (outline ax lane).Step r l ws s (s.tell e) := by
  obtain ⟨hnext, hhanded, hdrained, hacked⟩ := he
  refine step_tell hinv hnext.ge ?_ ?_ ?_ ?_ r
  · rw [hhanded]
    exact fun _ h => h
  · intro u D id
    simp only [Settled, hdrained, hacked]
    exact fun h => h
  · rw [hacked, hhanded]
    exact hinv.honest
  · rw [hdrained, hhanded]
    exact hinv.drained

/-! ## Committing inserts -/

section Commit

variable {ws : List Write} {e : Ext}

/-- A row of the view was there before or is one of the pending inserts. -/
theorem holds_view (hholds : Holds ax (s.view ws) u id) :
    Holds ax s.db u id ∨ ∃ r, Write.queued ax id (some r) ∈ ws ∧ r.toUin = u := by
  obtain ⟨row, hget, huin⟩ := hholds
  rcases queue_get_applyAll ws s.db id with hsame | hwrite
  · exact .inl ⟨row, hsame.symm.trans hget, huin⟩
  · have hmem : Write.queued ax id (some row) ∈ ws := by
      have hget' : ((applyAll ws s.db).queue ax).get id = some row := hget
      rwa [hget'] at hwrite
    exact .inr ⟨row, hmem, huin⟩

/-- No row is lost or changed. -/
theorem Inserts.queue_view (h : Inserts ax ws s) (hholds : Holds ax s.db u id) :
    ((s.view ws).queue ax).get id = (s.db.queue ax).get id := by
  rcases queue_get_applyAll ws s.db id with hsame | hwrite
  · exact hsame
  · obtain ⟨r, -, -, -, hunseen, -⟩ := h.rows id _ hwrite
    exact absurd ⟨s.db, mem_cons_self, hholds⟩ (hunseen u)

theorem Inserts.view_holds (h : Inserts ax ws s) (hholds : Holds ax s.db u id) :
    Holds ax (s.view ws) u id := by
  obtain ⟨row, hget, huin⟩ := hholds
  exact ⟨row, (h.queue_view ⟨row, hget, huin⟩).trans hget, huin⟩

theorem Inserts.cursor_view (h : Inserts ax ws s) (u : Uin) (D : DeviceId) :
    (s.view ws).queueCursors.get (u, D) = s.db.queueCursors.get (u, D) := by
  rcases cursor_get_applyAll ws s.db u D with hsame | hwrite
  · exact hsame
  · exact absurd hwrite (h.cursors u D _)

/-- A row that becomes visible is a pending insert. -/
theorem inserted_of_new (hid : Ever ax (s.commit ws e) u id)
    (hnew : ¬Ever ax s u id) : ∃ r, Write.queued ax id (some r) ∈ ws ∧ r.toUin = u := by
  rcases ever_commit.mp hid with hview | hold
  · rcases holds_view hview with hdb | hins
    · exact absurd ⟨s.db, mem_cons_self, hdb⟩ hnew
    · exact hins
  · exact absurd hold hnew

private theorem Inserts.grows (h : Inserts ax ws s) (he : Idle ax s.ext e) :
    Grows ax lane s (s.commit ws e) where
  ever := fun u id hid => ever_commit.mpr (.inr hid)
  fresh := by
    intro u id hid hnew id' hid'
    obtain ⟨r, hmem, rfl⟩ := inserted_of_new hid hnew
    obtain ⟨r', hr', -, -, -, habove, -⟩ := h.rows id _ hmem
    cases hr'
    exact habove id' hid'
  owed := by
    intro u D id howed
    rcases (owed_commit.mp howed).2 with ⟨⟨row, hget, huin, -⟩, hgone, -⟩ | hold
    · right
      rcases holds_view ⟨row, hget, huin⟩ with hdb | ⟨r, hmem, -⟩
      · exact absurd hdb hgone
      · obtain ⟨r', -, -, -, hunseen, -⟩ := h.rows id _ hmem
        exact hunseen u
    · exact .inl hold
  settled := by
    intro u D id
    simp only [Settled, commit_ext, he.2.2.1, he.2.2.2]
    exact fun h => h
  handed := by
    rw [commit_ext, he.2.1]
    exact fun _ h => h
  next := he.1.ge

/-- Committing inserts keeps the invariant. -/
theorem Inserts.step_commit (h : Inserts ax ws s) (hinv : Inv ax lane s) (he : Idle ax s.ext e)
    (r : Request) {l : Label} : (outline ax lane).Step r l ws s (s.commit ws e) := by
  have hgrows : Grows ax lane s (s.commit ws e) := h.grows he
  have hsettled := hgrows.settled
  refine ⟨?_, ⟨hgrows, ?_, ?_⟩⟩
  · constructor
    case start =>
      rw [commit_ext, he.1]
      exact hinv.start
    case fresh =>
      intro u id hid
      rw [commit_ext, he.1]
      by_cases hold : Ever ax s u id
      · exact hinv.fresh u id hold
      · obtain ⟨r, hmem, rfl⟩ := inserted_of_new hid hold
        obtain ⟨r', -, hpos, hlt, -⟩ := h.rows id _ hmem
        exact ⟨hpos, hlt⟩
    case owner =>
      intro u u' id hid hid'
      -- a pending id has never been visible, so both come from the past or both from the view
      by_cases hold : Ever ax s u id ∨ Ever ax s u' id
      · have hseen : ∀ v, Ever ax (s.commit ws e) v id → Ever ax s v id := by
          intro v hv
          by_contra hnew
          obtain ⟨r, hmem, -⟩ := inserted_of_new hv hnew
          obtain ⟨r', -, -, -, hunseen, -⟩ := h.rows id _ hmem
          rcases hold with hold | hold
          · exact hunseen u hold
          · exact hunseen u' hold
        exact hinv.owner u u' id (hseen u hid) (hseen u' hid')
      · rw [not_or] at hold
        obtain ⟨row, hget, rfl⟩ := (ever_commit.mp hid).resolve_right hold.1
        obtain ⟨row', hget', rfl⟩ := (ever_commit.mp hid').resolve_right hold.2
        rw [hget] at hget'
        cases hget'
        rfl
    case honest =>
      rw [commit_ext, he.2.2.2, he.2.1]
      exact hinv.honest
    case drained =>
      rw [commit_ext, he.2.2.1, he.2.1]
      exact hinv.drained
    case marks =>
      intro u D c hc
      have hc' : s.db.queueCursors.get (u, D) = some c := (h.cursor_view u D).symm.trans hc
      exact (hinv.marks u D c hc').mono (hgrows.ever u)
    case passed =>
      intro u D c id hc howed hle
      have hc' : s.db.queueCursors.get (u, D) = some c := (h.cursor_view u D).symm.trans hc
      apply hsettled
      rcases (owed_commit.mp howed).2 with ⟨⟨row, hget, huin, -⟩, hgone, -⟩ | hold
      · -- the row is new, so it lies above every mark
        exfalso
        rcases holds_view ⟨row, hget, huin⟩ with hdb | ⟨r, hmem, rfl⟩
        · exact hgone hdb
        obtain ⟨r', hr', hpos, -, -, habove, -⟩ := h.rows id _ hmem
        cases hr'
        rcases hinv.marks _ D c hc' with hzero | ⟨id', hid', hmark⟩
        · omega
        · have := habove id' hid'
          omega
      · exact hinv.passed u D c id hc' hold hle
    case kept =>
      intro u D id howed hgone
      apply hsettled
      rcases (owed_commit.mp howed).2 with ⟨⟨row, hget, huin, -⟩, -, -⟩ | hold
      · exact absurd ⟨row, hget, huin⟩ hgone
      · exact hinv.kept u D id hold fun hdb => hgone (h.view_holds hdb)
    case tracks =>
      intro u D id howed hholds
      rcases (owed_commit.mp howed).2 with ⟨hnew, -, -⟩ | hold
      · exact hnew
      · rcases holds_view hholds with hdb | ⟨r, hmem, -⟩
        · obtain ⟨row, hget, huin, hlane⟩ := hinv.tracks u D id hold hdb
          exact ⟨row, (h.queue_view ⟨row, hget, huin⟩).trans hget, huin, hlane⟩
        · obtain ⟨r', -, -, -, hunseen, -⟩ := h.rows id _ hmem
          exact absurd hold.ever (hunseen u)
  · intro hhist
    simp at hhist
  · intro u id hid hnew
    obtain ⟨r, hmem, rfl⟩ := inserted_of_new hid hnew
    obtain ⟨r', hr', -, -, -, -, hlock⟩ := h.rows id _ hmem
    cases hr'
    exact ⟨r, hmem, rfl, hlock⟩

end Commit

/-- The frame rule for the queue. -/
theorem inserts_framed (r : Request) :
    (outline ax lane).Framed r (Foreign ax) (Idle ax) (Inserts ax) where
  stable := fun _ _ _ _ h hrely _ => h.stable hrely
  stmt := by
    intro _ ws s new e h hinv hnew he
    exact ⟨step_idle hinv he r, h.append_foreign he.1.ge hnew⟩
  commit := fun _ _ _ _ h hinv he => ⟨h.step_commit hinv he r, .nil _⟩
  rollback := fun _ s _ => .nil s

end RcqServer.Queue
