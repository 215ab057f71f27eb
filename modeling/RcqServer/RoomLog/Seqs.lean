import RcqServer.RoomLog.Delivery

/-!
# The sequences of a room

A post takes its sequences by an upsert of the room's `group_seq` row and holds that row until it
ends, so posts of one room commit one after the other, in the order of their sequences.  Whatever
else runs, aborts or is killed, a stretch of a run adds to a room's log exactly the sequences
between the head before and the head after (`Block`).
-/

namespace RcqServer.RoomLog

open ReadCommitted Messages Outline List World

/-- The database has a row at this sequence of the room's log. -/
def HasRow (db : Db) (g : GroupId) (seq : ℤ) : Prop := (db.groupLog.get (g, seq)).isSome

instance (db : Db) (g : GroupId) (seq : ℤ) : Decidable (HasRow db g seq) :=
  inferInstanceAs (Decidable (_ = true))

/-- The sequences of a room are where they were, and so are its rows. -/
structure Same (g : GroupId) (db db' : Db) : Prop where
  seq : db'.groupSeq.get g = db.groupSeq.get g
  rows : ∀ seq, db'.groupLog.get (g, seq) = db.groupLog.get (g, seq)

/-- A room has got the rows from its old head to its new one, and no others. -/
structure Block (g : GroupId) (db db' : Db) : Prop where
  head : db.head g ≤ db'.head g
  kept : ∀ seq row, db.groupLog.get (g, seq) = some row → db'.groupLog.get (g, seq) = some row
  block : ∀ seq, HasRow db' g seq ↔ HasRow db g seq ∨ db.head g < seq ∧ seq ≤ db'.head g

variable {g : GroupId} {db db' db'' : Db} {s s' : State} {ws new : List Write}

theorem Same.head (h : Same g db db') : db'.head g = db.head g := congrArg (Option.getD · 0) h.seq

theorem Same.block (h : Same g db db') : Block g db db' where
  head := h.head.ge
  kept := fun seq row hrow => (h.rows seq).trans hrow
  block := by
    intro seq
    rw [HasRow, h.rows, h.head, HasRow]
    exact ⟨.inl, fun hrow => hrow.elim id fun ⟨hlt, hle⟩ => absurd hle (not_le.mpr hlt)⟩

theorem Same.refl (g : GroupId) (db : Db) : Same g db db := ⟨rfl, fun _ => rfl⟩

theorem Same.trans (h : Same g db db') (h' : Same g db' db'') : Same g db db'' :=
  ⟨h'.seq.trans h.seq, fun seq => (h'.rows seq).trans (h.rows seq)⟩

theorem Block.trans (h : Block g db db') (h' : Block g db' db'') : Block g db db'' where
  head := h.head.trans h'.head
  kept := fun seq row hrow => h'.kept seq row (h.kept seq row hrow)
  block := by
    intro seq
    have := h.head
    have := h'.head
    rw [h'.block, h.block, or_assoc]
    refine or_congr_right ⟨?_, fun ⟨hlt, hle⟩ => ?_⟩
    · rintro (⟨hlt, hle⟩ | ⟨hlt, hle⟩)
      · exact ⟨hlt, by omega⟩
      · exact ⟨by omega, hle⟩
    · rcases le_or_gt seq (db'.head g) with hold | hnew
      · exact .inl ⟨hlt, hold⟩
      · exact .inr ⟨hnew, hle⟩

/-- A block depends on the room only. -/
theorem Block.congr (h : Block g db db') {other other' : Db} (hsame : Same g db other)
    (hsame' : Same g db' other') : Block g other other' where
  head := by rw [hsame.head, hsame'.head]; exact h.head
  kept := by
    intro seq row hrow
    rw [hsame.rows] at hrow
    rw [hsame'.rows]
    exact h.kept seq row hrow
  block := by
    intro seq
    rw [HasRow, HasRow, hsame.head, hsame'.head, hsame.rows, hsame'.rows]
    exact h.block seq

/-! ## The outline -/

namespace Seqs

def Rely (ws : List Write) (s s' : State) : Prop :=
  ∀ g, Block g s.db s'.db ∧ (RowKey.groupSeq g ∈ lockedRows Db ws → Same g s.db s'.db)

def Guar (ws : List Write) (s s' : State) : Prop :=
  ∀ g, Block g s.db s'.db ∧ (RowKey.groupSeq g ∉ lockedRows Db ws → Same g s.db s'.db)

def outline : Outline Db Ext Write Label Request where
  Inv := fun _ => True
  Rely := fun _ _ => Rely
  Guar := fun _ _ => Guar
  Start := fun _ _ => True
  Cond := fun _ _ _ => True
  Apart := fun _ _ _ _ => True

theorem coherent : outline.Coherent where
  rely_refl := fun _ _ _ s g => ⟨(Same.refl g s.db).block, fun _ => .refl g s.db⟩
  rely_trans := fun _ _ _ _ _ _ h h' g =>
    ⟨(h g).1.trans (h' g).1, fun hg => ((h g).2 hg).trans ((h' g).2 hg)⟩
  guar_refl := fun _ _ _ s g => ⟨(Same.refl g s.db).block, fun _ => .refl g s.db⟩
  rely_of_guar := fun _ _ _ _ _ _ _ _ _ hstep hfree _ g =>
    ⟨(hstep.guar g).1, fun hg => (hstep.guar g).2 (hfree _ hg)⟩

variable {r : Request} {rooms : List GroupId}

/-- A write that is neither of a head nor of a log. -/
def Elsewhere : Write → Prop
  | .groupSeq _ _ => False
  | .log _ _ _ => False
  | _ => True

/-- The writes of a transaction, if it were to commit now: a block in each of the rooms whose heads
it holds, and nothing in the others. -/
structure Posted (rooms : List GroupId) (ws : List Write) (s : State) : Prop where
  locked : ∀ g, RowKey.groupSeq g ∈ lockedRows Db ws → g ∈ rooms
  logs : ∀ g seq row, Write.log g seq row ∈ ws → RowKey.groupSeq g ∈ lockedRows Db ws
  block : ∀ g, RowKey.groupSeq g ∈ lockedRows Db ws → Block g s.db (s.view ws)

theorem Posted.nil (rooms : List GroupId) (s : State) : Posted rooms [] s :=
  ⟨nofun, nofun, nofun⟩

theorem same_view_congr (h : Same g s.db s'.db) : Same g (s.view ws) (s'.view ws) :=
  ⟨sets_groupSeq.get_applyAll_congr ws h.seq,
    fun seq => sets_groupLog.get_applyAll_congr (k := (g, seq)) ws (h.rows seq)⟩

/-- Writes elsewhere change nothing of a room. -/
theorem same_of_elsewhere (hnew : ∀ w ∈ new, Elsewhere w) (g : GroupId) (db : Db) :
    Same g db (applyAll new db) :=
  ⟨sets_groupSeq.get_applyAll_of_notMem (fun _ h => hnew _ h) db,
    fun seq => sets_groupLog.get_applyAll_of_notMem (k := (g, seq)) (fun _ h => hnew _ h) db⟩

theorem locked_append_elsewhere (hnew : ∀ w ∈ new, Elsewhere w) :
    RowKey.groupSeq g ∈ lockedRows Db (ws ++ new) ↔ RowKey.groupSeq g ∈ lockedRows Db ws := by
  simp only [groupSeq_mem_lockedRows, mem_append]
  exact exists_congr fun next => or_iff_left fun h => hnew _ h

/-- What is held changes by nobody else's doing. -/
theorem Posted.stable (h : Posted rooms ws s) (hrely : Rely ws s s') : Posted rooms ws s' :=
  ⟨h.locked, h.logs, fun g hg =>
    (h.block g hg).congr ((hrely g).2 hg) (same_view_congr ((hrely g).2 hg))⟩

theorem Posted.append (h : Posted rooms ws s) (hnew : ∀ w ∈ new, Elsewhere w) (e : Ext) :
    Posted rooms (ws ++ new) (s.tell e) where
  locked := fun g hg => h.locked g ((locked_append_elsewhere hnew).mp hg)
  logs := by
    intro g seq row hmem
    refine (locked_append_elsewhere hnew).mpr (h.logs g seq row ?_)
    exact (mem_append.mp hmem).resolve_right fun h => hnew _ h
  block := by
    intro g hg
    refine (h.block g ((locked_append_elsewhere hnew).mp hg)).congr (.refl g _) ?_
    rw [Shared.view, Shared.view, applyAll_append]
    exact same_of_elsewhere hnew g _

theorem Posted.step_commit (h : Posted rooms ws s) (e : Ext) {l : Label} :
    outline.Step r l ws s (s.commit ws e) := by
  refine ⟨trivial, fun g => ?_⟩
  by_cases hg : RowKey.groupSeq g ∈ lockedRows Db ws
  · exact ⟨h.block g hg, fun hfree => absurd hg hfree⟩
  · have hsame : Same g s.db (s.view ws) := by
      refine ⟨sets_groupSeq.get_applyAll_of_notMem (fun next hmem => hg ?_) s.db, fun seq =>
        sets_groupLog.get_applyAll_of_notMem (k := (g, seq)) (fun row hmem => hg ?_) s.db⟩
      · exact groupSeq_mem_lockedRows.mpr ⟨next, hmem⟩
      · exact h.logs g seq row hmem
    exact ⟨hsame.block, fun _ => hsame⟩

theorem framed (r : Request) (rooms : List GroupId) :
    outline.Framed r Elsewhere (fun _ _ => True) (Posted rooms) where
  stable := fun _ _ _ _ h hrely _ => h.stable hrely
  stmt := fun l _ s _ e h _ hnew _ =>
    ⟨⟨trivial, coherent.guar_refl r l _ s⟩, h.append hnew e⟩
  commit := fun _ _ _ e h _ _ => ⟨h.step_commit e, .nil rooms _⟩
  rollback := fun _ s _ => .nil rooms s

/-! ## Posts -/

/-- The head of a room is taken up to `head + count`, and nothing is logged yet. -/
def Taken (g : GroupId) (seqs : List ℤ) (ws : List Write) (s : State) : Prop :=
  ∃ before, ws = before ++ [.groupSeq g (some (s.db.head g + seqs.length))] ∧
    Posted [] before s ∧ seqs = seqsAbove (s.db.head g) seqs.length

theorem mem_seqsAbove {head seq : ℤ} {count : ℕ} :
    seq ∈ seqsAbove head count ↔ head < seq ∧ seq ≤ head + count := by
  simp only [seqsAbove, mem_map, mem_range]
  constructor
  · rintro ⟨i, hi, rfl⟩
    omega
  · rintro ⟨hlt, hle⟩
    exact ⟨(seq - head - 1).toNat, by omega, by omega⟩

theorem seqsAbove_one (head : ℤ) : seqsAbove head 1 = [head + 1] := by simp [seqsAbove]

theorem Posted.unlocked (h : Posted [] ws s) (next : Option ℤ) : Write.groupSeq g next ∉ ws :=
  fun hmem => not_mem_nil (h.locked g (groupSeq_mem_lockedRows.mpr ⟨next, hmem⟩))

theorem Posted.unlogged (h : Posted [] ws s) (seq : ℤ) (row : Option LogRow) :
    Write.log g seq row ∉ ws :=
  fun hmem => not_mem_nil (h.locked g (h.logs g seq row hmem))

theorem Posted.head_view (h : Posted [] ws s) : (s.view ws).head g = s.db.head g :=
  congrArg (Option.getD · 0) (sets_groupSeq.get_applyAll_of_notMem h.unlocked s.db)

/-- The upsert of `_next_group_seq` and `_next_group_seqs`. -/
theorem Posted.take (h : Posted [] ws s) (count : ℕ) :
    Taken g (seqsAbove ((s.view ws).head g) count)
      (ws ++ [.groupSeq g (some ((s.view ws).head g + count))]) s := by
  have hlength : (seqsAbove (s.db.head g) count).length = count := by simp [seqsAbove]
  rw [h.head_view]
  exact ⟨ws, by rw [hlength], h, by rw [hlength]⟩

theorem Taken.stable {seqs : List ℤ} (h : Taken g seqs ws s) (hrely : Rely ws s s') :
    Taken g seqs ws s' := by
  obtain ⟨before, hws, hbefore, hseqs⟩ := h
  have hlocked : RowKey.groupSeq g ∈ lockedRows Db ws :=
    groupSeq_mem_lockedRows.mpr ⟨_, hws ▸ mem_append_right _ (mem_singleton_self _)⟩
  rw [← ((hrely g).2 hlocked).head] at hws hseqs
  exact ⟨before, hws, ⟨hbefore.locked, hbefore.logs, fun g hg =>
    absurd (hbefore.locked g hg) not_mem_nil⟩, hseqs⟩

section Log

variable {before all : List Write} {rows : List (ℤ × LogRow)} {count : ℕ}
  (hbefore : Posted [] before s)
  (hmem : ∀ w, w ∈ all ↔ w ∈ before ∨ w = .groupSeq g (some (s.db.head g + count)) ∨
    ∃ x ∈ rows, .log g x.1 (some x.2) = w)

include hbefore hmem

private theorem seq_of_mem {g' : GroupId} {next : Option ℤ} (h : Write.groupSeq g' next ∈ all) :
    g' = g ∧ next = some (s.db.head g + count) := by
  rcases (hmem _).mp h with hold | heq | ⟨x, -, heq⟩
  · exact absurd hold (hbefore.unlocked next)
  · cases heq
    exact ⟨rfl, rfl⟩
  · cases heq

private theorem log_of_mem {g' : GroupId} {seq : ℤ} {row : Option LogRow}
    (h : Write.log g' seq row ∈ all) : g' = g ∧ seq ∈ rows.map Prod.fst ∧ row.isSome := by
  rcases (hmem _).mp h with hold | heq | ⟨x, hx, heq⟩
  · exact absurd hold (hbefore.unlogged seq row)
  · cases heq
  · cases heq
    exact ⟨rfl, mem_map_of_mem hx, rfl⟩

variable (hseqs : rows.map Prod.fst = seqsAbove (s.db.head g) count)
  (hfree : ∀ x ∈ rows, s.db.groupLog.get (g, x.1) = none)

include hseqs hfree

/-- A sequence that the post has taken gets its row, and every other row stays. -/
private theorem rows_view (seq : ℤ) :
    ((s.db.head g < seq ∧ seq ≤ s.db.head g + count) ∧ HasRow (s.view all) g seq ∧
      s.db.groupLog.get (g, seq) = none) ∨ (¬(s.db.head g < seq ∧ seq ≤ s.db.head g + count) ∧
      (s.view all).groupLog.get (g, seq) = s.db.groupLog.get (g, seq)) := by
  rw [← mem_seqsAbove, ← hseqs]
  by_cases hin : seq ∈ rows.map Prod.fst
  · obtain ⟨x, hx, rfl⟩ := mem_map.mp hin
    have hwritten := sets_groupLog.get_applyAll_of_mem (k := (g, x.1))
      ((hmem (.log g x.1 (some x.2))).mpr (.inr (.inr ⟨x, hx, rfl⟩))) s.db
    exact .inl ⟨hin, (log_of_mem hbefore hmem hwritten).2.2, hfree x hx⟩
  · refine .inr ⟨hin, sets_groupLog.get_applyAll_of_notMem (k := (g, seq)) (fun row hrow => ?_) s.db⟩
    exact hin (log_of_mem hbefore hmem hrow).2.1

private theorem posted_of_mem : Posted [g] all s := by
  have hlocked : RowKey.groupSeq g ∈ lockedRows Db all :=
    groupSeq_mem_lockedRows.mpr ⟨_, (hmem _).mpr (.inr (.inl rfl))⟩
  have honly : ∀ g', RowKey.groupSeq g' ∈ lockedRows Db all → g' = g := by
    intro g' hg'
    obtain ⟨next, hnext⟩ := groupSeq_mem_lockedRows.mp hg'
    exact (seq_of_mem hbefore hmem hnext).1
  refine ⟨fun g' hg' => mem_singleton.mpr (honly g' hg'), fun g' seq row hrow => ?_,
    fun g' hg' => ?_⟩
  · rw [(log_of_mem hbefore hmem hrow).1]
    exact hlocked
  obtain rfl := honly g' hg'
  obtain ⟨next, hnext⟩ := groupSeq_mem_lockedRows.mp hg'
  have hhead : (s.view all).head g' = s.db.head g' + count := congrArg (Option.getD · 0)
    (seq_of_mem hbefore hmem (sets_groupSeq.get_applyAll_of_mem hnext s.db)).2
  refine ⟨by omega, fun seq row hrow => ?_, fun seq => ?_⟩
  · rcases rows_view hbefore hmem hseqs hfree seq with ⟨-, -, hnone⟩ | ⟨-, hsame⟩
    · rw [hnone] at hrow
      cases hrow
    · exact hsame.trans hrow
  · rw [hhead]
    rcases rows_view hbefore hmem hseqs hfree seq with ⟨hin, hrow, -⟩ | ⟨hout, hsame⟩
    · exact iff_of_true hrow (.inr hin)
    · rw [HasRow, hsame]
      exact (or_iff_left hout).symm

end Log

/-- The rows of a post, at the sequences that it has taken. -/
theorem Taken.log {seqs : List ℤ} {rows : List (ℤ × LogRow)} (h : Taken g seqs ws s)
    (hseqs : rows.map Prod.fst = seqs)
    (hfree : ∀ x ∈ rows, (s.view ws).groupLog.get (g, x.1) = none) :
    Posted [g] (ws ++ rows.map fun x => .log g x.1 (some x.2)) s := by
  obtain ⟨before, hws, hbefore, htaken⟩ := h
  refine posted_of_mem hbefore ?_ (hseqs.trans htaken) fun x hx => ?_
  · intro w
    rw [hws, mem_append, mem_append, mem_singleton, mem_map, or_assoc]
  · have hnone := hfree x hx
    rwa [hws, Shared.view, sets_groupLog.get_applyAll_of_notMem (k := (g, x.1))] at hnone
    exact fun row hrow => (mem_append.mp hrow).elim (hbefore.unlogged _ _) (by simp)

theorem wp_insertLog {seqs : List ℤ} {rows : List (ℤ × LogRow)} (h : Taken g seqs ws s)
    (hseqs : rows.map Prod.fst = seqs) :
    outline.wp r (insertLog g rows) (fun _ ws s => Posted [g] ws s) ws s := by
  unfold insertLog
  split
  · rename_i hnil
    subst hnil
    have hposted := h.log hseqs (forall_mem_nil _)
    rwa [map_nil, append_nil] at hposted
  · intro s₁ hrely _ _
    refine ⟨⟨trivial, coherent.guar_refl r .insertLog _ s₁⟩, ?_⟩
    rw [Shared.tell_same]
    beta_reduce
    split
    · exact trivial
    · rename_i hfree
      refine (h.stable hrely).log hseqs fun x hx => ?_
      rw [any_eq_true, not_exists] at hfree
      exact Option.not_isSome_iff_eq_none.mp fun hsome => hfree x ⟨hx, hsome⟩

/-- The end of a post. -/
theorem wp_finish {β : Type} {legacy : List QueuedRow} {a : β} (h : Posted rooms ws s) :
    outline.Safe r ((insertGroupMessages legacy).bind fun _ =>
      (Prog.commitOnly .commit : Handler Unit).bind fun _ => .ret a) ws s :=
  safe_within (framed r rooms) (finishPost_within (fun _ => trivial) (fun _ _ => trivial)
    fun _ _ => trivial) h

theorem wp_sendGroupSealed (cfg : Config) (body : GroupSealedSendIn) (caller : Option Uin)
    (env : PostEnv) : outline.Safe r (sendGroupSealed cfg body caller env) [] s := by
  refine wp_sendGroupSealed_of (fun _ => trivial) (framed r []) (.nil [] s) cfg body caller env
    fun ws s addressed now legacy out h => ?_
  unfold nextGroupSeqs
  split
  · rename_i hnone
    obtain rfl := length_eq_zero_iff.mp hnone
    exact wp_finish h
  · refine wp_write_bind coherent fun s₁ hrely _ _ => ?_
    refine wp_seq (wp_insertLog ((h.stable hrely).take _) ?_) fun _ ws s h => wp_finish h
    rw [map_map]
    exact map_fst_zip (by simp [seqsAbove])

theorem wp_sendGroupBroadcast (cfg : Config) (body : GroupBroadcastIn) (caller : Option Uin)
    (env : PostEnv) : outline.Safe r (sendGroupBroadcast cfg body caller env) [] s := by
  refine wp_sendGroupBroadcast_of (fun _ => trivial) (framed r []) (.nil [] s) cfg body caller env
    fun ws s readers row recipients legacy out h _ => ?_
  have hlogged : outline.wp r (logBroadcast body.groupId readers row)
      (fun _ ws s => ∃ rooms, Posted rooms ws s) ws s := by
    unfold logBroadcast
    split
    · exact ⟨[], h⟩
    · refine wp_write_bind coherent fun s₁ hrely _ _ => ?_
      have htaken := (h.stable hrely).take (g := body.groupId) 1
      rw [Int.natCast_one, seqsAbove_one] at htaken
      exact wp_seq (wp_insertLog htaken rfl) fun _ ws s h => ⟨_, h⟩
  refine wp_seq hlogged fun seq ws s ⟨rooms, h⟩ => ?_
  refine wp_within_bind (framed r rooms) (.effect fun _ _ => trivial) h fun _ ws s h => ?_
  exact wp_finish h

theorem handler_safe (cfg : Config) (r : Request) (s : State) :
    outline.Safe r (handler cfg r) [] s := by
  have hsafe : ∀ {α : Type} {p : Handler α}, p.Within Elsewhere (fun _ _ => True) →
      outline.Safe r p [] s := fun hp => safe_within (framed r []) hp (.nil [] s)
  cases r with
  | sendGroupSealed body caller env => exact safe_map (wp_sendGroupSealed cfg body caller env) _
  | sendGroupBroadcast body caller env =>
    exact safe_map (wp_sendGroupBroadcast cfg body caller env) _
  | tick seconds => exact safe_map (hsafe (.effect fun _ _ => trivial)) _
  | _ => exact safe_map (hsafe (by simp [Elsewhere.eq_def])) _

end Seqs

variable {cfg : Config} {users : Table Uin UserRow} {groups : Table GroupId GroupRow}
  {members : Table (GroupId × Uin) Unit} {now : Time} {w w' : World}

/-- A stretch of a run adds a block to every room. -/
theorem block_of_run (hrun : Run (handler cfg) (fun _ _ => True)
      (.fresh (.empty users groups members) (.initial now)) w)
    (hlater : Run (handler cfg) (fun _ _ => True) w w') (g : GroupId) :
    Block g w.shared.db w'.shared.db := by
  have hallows : ∀ (w : World) a, Seqs.outline.Allows w a :=
    allows_of_forall (fun _ _ => trivial) (fun _ _ _ => trivial) fun _ _ _ _ => trivial
  induction hlater with
  | refl => exact (Same.refl g _).block
  | tail hbefore hlast ih =>
    obtain ⟨a, -, hnext⟩ := hlast
    refine ih.trans ?_
    cases a with
    | start r =>
      simp only [World.next, Option.some.injEq] at hnext
      subst hnext
      exact (Same.refl g _).block
    | kill n =>
      obtain ⟨r, p, ws, -, rfl⟩ := next_kill_cases hnext
      exact (Same.refl g _).block
    | step n =>
      have hreached := Run.mono (fun w a _ => hallows w a) (hrun.trans hbefore)
      rcases step_of_run Seqs.coherent (fun r s _ _ => Seqs.handler_safe cfg r s) trivial
        hreached (hallows _ _) hnext with hsame | ⟨r, l, ws, -, -, hstep⟩
      · rw [hsame]
        exact (Same.refl g _).block
      · exact (hstep.guar g).1

/-- **Sequences are committed in order.**  In every interleaving of posts, drains, acks, joins and
kills from an empty log, a room's log always has exactly the rows from 1 to the head; rows stay as
they are; and whatever a later state has more, down to what one commit adds, is the block between the
two heads.  So a reader that has seen a sequence never finds a new row at or below it. -/
theorem seqs_committed_in_order (hrun : Run (handler cfg) (fun _ _ => True)
      (.fresh (.empty users groups members) (.initial now)) w)
    (hlater : Run (handler cfg) (fun _ _ => True) w w') (g : GroupId) :
    (∀ seq, HasRow w.shared.db g seq ↔ 0 < seq ∧ seq ≤ w.shared.db.head g) ∧
    Block g w.shared.db w'.shared.db ∧
    ∀ seen seq, HasRow w.shared.db g seen → HasRow w'.shared.db g seq →
      ¬HasRow w.shared.db g seq → seen < seq := by
  have hdense : ∀ seq, HasRow w.shared.db g seq ↔ 0 < seq ∧ seq ≤ w.shared.db.head g := by
    intro seq
    have hblock := (block_of_run .refl hrun g).block seq
    simpa [HasRow, Db.head, Db.empty, fresh] using hblock
  have hblock := block_of_run hrun hlater g
  refine ⟨hdense, hblock, fun seen seq hseen hseq hnew => ?_⟩
  have hle := ((hdense seen).mp hseen).2
  have hlt := (((hblock.block seq).mp hseq).resolve_left hnew).1
  omega

/-- One broadcast into the room has committed. -/
abbrev oneLogged : World := oneMember.play (handler ⟨14, false⟩) (liveFrame ++ steps 1 20)

/-- And another one. -/
abbrev twoLogged : World :=
  oneLogged.play (handler ⟨14, false⟩) (.start (broadcast "two" []) :: steps 2 20)

theorem seqs_committed_in_order_twice :
    HasRow oneLogged.shared.db 1 1 ∧ ¬HasRow oneLogged.shared.db 1 2 ∧
      HasRow twoLogged.shared.db 1 2 ∧ Block 1 oneLogged.shared.db twoLogged.shared.db := by
  have hrun : Run (handler ⟨14, false⟩) (fun _ _ => True) oneMember oneLogged :=
    .of_play _ (by decide +kernel)
  have hlater : Run (handler ⟨14, false⟩) (fun _ _ => True) oneLogged twoLogged :=
    .of_play _ (by decide +kernel)
  exact ⟨by decide +kernel, by decide +kernel, by decide +kernel,
    (seqs_committed_in_order hrun hlater 1).2.1⟩

end RcqServer.RoomLog
