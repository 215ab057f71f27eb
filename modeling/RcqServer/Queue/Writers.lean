import RcqServer.Queue.Inserts
import RcqServer.Messages.Footprint

/-!
# The handlers that leave the cursors alone

Deposits, room posts, log reads, joins, heartbeats and time: each meets the outline of the queue.
Only two statements of them are about the queue at all, the `INSERT` of a deposit and that of a
post; everything around them is framed.
-/

namespace RcqServer.Queue

open ReadCommitted Messages Outline List

variable {ax : Axis} {lane : Lane} {r : Request} {ws : List Write} {s : State}

theorem idle_refl (e : Ext) : Idle ax e e := ⟨rfl, rfl, rfl, rfl⟩

/-! ## Inserting rows -/

private theorem mem_queuedFrom {next id : ℕ} {row : Option QueuedRow} {rows : List QueuedRow}
    (h : Write.queued ax id row ∈ queuedFrom ax next rows) :
    ∃ r, row = some r ∧ next ≤ id ∧ id < next + rows.length := by
  induction rows generalizing next with
  | nil => cases h
  | cons r rows ih =>
    rcases mem_cons.mp h with heq | hmem
    · cases heq
      exact ⟨r, rfl, le_rfl, by simp⟩
    · obtain ⟨r', hrow, hle, hlt⟩ := ih hmem
      refine ⟨r', hrow, by omega, ?_⟩
      rw [length_cons]
      omega

private theorem nextId_allocate (e : Ext) (n : ℕ) :
    (e.allocate n ax).nextId ax = e.nextId ax + n := by
  cases ax <;> rfl

private theorem allocate_step {n : ℕ} (hinv : Inv ax lane s) (r : Request) {l : Label} :
    (outline ax lane).Step r l ws s (s.tell (s.ext.allocate n ax)) := by
  refine step_tell hinv ?_ ?_ ?_ ?_ ?_ r
  · rw [nextId_allocate]
    omega
  · cases ax <;> exact fun _ h => h
  · cases ax <;> exact fun _ _ _ h => h
  · cases ax <;> exact hinv.honest
  · cases ax <;> exact hinv.drained

/-- Ids that are taken now lie above everything that has been visible. -/
private theorem inserts_allocate {new : List Write} {n : ℕ} (hinv : Inv ax lane s)
    (h : Inserts ax ws s) (hcursors : ∀ u D row, Write.cursor u D row ∉ new)
    (hrows : ∀ id row, Write.queued ax id row ∈ new → ∃ r, row = some r ∧
      s.ext.nextId ax ≤ id ∧ id < s.ext.nextId ax + n ∧
      (ax = .direct → RowKey.mailboxSeq r.toUin ∈ lockedRows Db (ws ++ new))) :
    Inserts ax (ws ++ new) (s.tell (s.ext.allocate n ax)) := by
  have hstart := hinv.start
  refine h.append (by rw [nextId_allocate]; omega) hcursors fun id row hrow => ?_
  obtain ⟨r, rfl, hle, hlt, hlock⟩ := hrows id row hrow
  refine ⟨r, rfl, by omega, by rw [nextId_allocate]; exact hlt, ?_, ?_, hlock⟩
  · intro u hu
    have := (hinv.fresh u id hu).2
    omega
  · intro id' hid'
    have := (hinv.fresh _ id' hid').2
    omega

/-- Taking ids from the other queue's sequence is no business of this one. -/
private theorem idle_allocate {ax' : Axis} (hax : ax' ≠ ax) (e : Ext) (n : ℕ) :
    Idle ax e (e.allocate n ax') := by
  cases ax <;> cases ax' <;> first | exact absurd rfl hax | exact ⟨rfl, rfl, rfl, rfl⟩

private theorem foreign_queued {ax' : Axis} (hax : ax' ≠ ax) (id : ℕ) (row : Option QueuedRow) :
    Foreign ax (.queued ax' id row) := by
  refine ⟨nofun, fun id' row' h => ?_⟩
  cases h
  exact hax rfl

/-- The `INSERT` of a post. -/
theorem wp_insertGroupMessages (rows : List QueuedRow) (h : Inserts ax ws s) :
    (outline ax lane).wp r (insertGroupMessages rows) (fun _ ws s => Inserts ax ws s) ws s := by
  cases ax with
  | direct =>
    refine wp_within (inserts_framed r) (insertGroupMessages_within rows ?_ ?_) h
    · exact fun id row => foreign_queued (by decide) id _
    · exact fun e n => idle_allocate (by decide) e n
  | group =>
    unfold insertGroupMessages
    split
    · exact h
    · intro s' hrely hinv _
      refine ⟨allocate_step hinv r, inserts_allocate hinv (h.stable hrely) ?_ ?_⟩
      · exact fun u D row => queuedFrom_all (W := (· ≠ .cursor u D row)) (by simp) rows _ _
          |> fun hne hmem => hne hmem rfl
      · intro id row hrow
        obtain ⟨r, hr, hle, hlt⟩ := mem_queuedFrom hrow
        exact ⟨r, hr, hle, hlt, nofun⟩

/-- The `INSERT` of a deposit, which holds the recipient's mailbox lock. -/
theorem wp_insertMessage (row : QueuedRow) (seq : ℕ) (h : Inserts ax ws s)
    (hlock : RowKey.mailboxSeq row.toUin ∈ lockedRows Db ws) :
    (outline ax lane).wp r (insertMessage row seq) (fun _ ws s => Inserts ax ws s) ws s := by
  cases ax with
  | group =>
    refine wp_within (inserts_framed r) (insertMessage_within row seq ?_ ?_) h
    · exact fun id row => foreign_queued (by decide) id _
    · exact fun e n => idle_allocate (by decide) e n
  | direct =>
    intro s' hrely hinv _
    have hstable := h.stable hrely
    refine ⟨allocate_step hinv r, ?_⟩
    -- a drifted counter rolls the deposit back
    cases htaken : (s'.view ws).seqTaken row.toUin seq with
    | true =>
      simp only [htaken, if_true]
      exact fun _ _ _ => trivial
    | false =>
      simp only [htaken, Bool.false_eq_true, if_false]
      refine inserts_allocate hinv hstable ?_ ?_
      · simp
      · intro id row' hmem
        obtain heq := mem_singleton.mp hmem
        cases heq
        refine ⟨row, rfl, le_rfl, Nat.lt_succ_self _, fun _ => ?_⟩
        simp only [lockedRows, map_append]
        exact mem_append_left _ hlock

/-! ## Deposits and posts -/

theorem wp_sendSealed (cfg : Config) (body : SealedSendIn) (online : Bool) :
    (outline ax lane).Safe r (sendSealed cfg body online) [] s := by
  have hframe : (outline ax lane).Framed r _ _ _ := inserts_framed r
  refine wp_within_bind hframe (.read idle_refl) (.nil s) fun target ws s h => ?_
  refine wp_within_bind hframe .raiseIf h fun _ ws s h => ?_
  refine wp_within_bind hframe .raiseIf h fun _ ws s h => ?_
  refine wp_within_bind hframe .raiseIf h fun _ ws s h => ?_
  refine wp_within_bind hframe (clock_within idle_refl) h fun now ws s h => ?_
  refine wp_within_bind hframe (.effect fun _ e => idle_refl e) h fun _ ws s h => ?_
  -- from here on the recipient's mailbox is locked
  have hlocked : (outline ax lane).wp r (nextMailboxSeq body.toUin) (fun _ ws s =>
      Inserts ax ws s ∧ RowKey.mailboxSeq body.toUin ∈ lockedRows Db ws) ws s := by
    refine wp_write (outline_coherent ax lane) fun s' hrely _ _ => ⟨?_, ?_⟩
    · exact (h.stable hrely).append_foreign le_rfl (forall_mem_singleton.mpr ⟨nofun, nofun⟩)
    · simp [lockedRows, Store.key, Write.key]
  refine wp_seq hlocked fun seq ws s h => ?_
  refine wp_seq (wp_insertMessage _ _ h.1 h.2) fun _ ws s h => ?_
  exact wp_within_bind hframe (commitOnly_within idle_refl) h fun _ _ _ _ => trivial

theorem wp_sendGroupSealed (cfg : Config) (body : GroupSealedSendIn) (caller : Option Uin)
    (env : PostEnv) : (outline ax lane).Safe r (sendGroupSealed cfg body caller env) [] s := by
  have hframe : (outline ax lane).Framed r _ _ _ := inserts_framed r
  refine wp_sendGroupSealed_of idle_refl hframe (.nil s) cfg body caller env
    fun ws s addressed now legacy out h => ?_
  refine wp_within_bind hframe (nextGroupSeqs_within idle_refl _ _ fun _ => ⟨nofun, nofun⟩) h
    fun seqs ws s h => ?_
  refine wp_within_bind hframe (insertLog_within idle_refl _ _ fun _ _ => ⟨nofun, nofun⟩) h
    fun _ ws s h => ?_
  refine wp_seq (wp_insertGroupMessages _ h) fun _ ws s h => ?_
  exact wp_within_bind hframe (commitOnly_within idle_refl) h fun _ _ _ _ => trivial

theorem wp_sendGroupBroadcast (cfg : Config) (body : GroupBroadcastIn) (caller : Option Uin)
    (env : PostEnv) : (outline ax lane).Safe r (sendGroupBroadcast cfg body caller env) [] s := by
  have hframe : (outline ax lane).Framed r _ _ _ := inserts_framed r
  refine wp_sendGroupBroadcast_of idle_refl hframe (.nil s) cfg body caller env
    fun ws s readers row recipients legacy out h _ => ?_
  refine wp_within_bind hframe (logBroadcast_within idle_refl _ _ _ (fun _ => ⟨nofun, nofun⟩)
    fun _ _ => ⟨nofun, nofun⟩) h fun seq ws s h => ?_
  refine wp_within_bind hframe (.effect fun _ e => ?_) h fun _ ws s h => ?_
  · cases seq <;> exact ⟨rfl, rfl, rfl, rfl⟩
  refine wp_seq (wp_insertGroupMessages _ h) fun _ ws s h => ?_
  exact wp_within_bind hframe (commitOnly_within idle_refl) h fun _ _ _ _ => trivial

/-! ## Everything else -/

theorem wp_fetchGroupLog (u : Uin) (D : DeviceId) (body : GroupLogFetchIn) :
    (outline ax lane).Safe r (fetchGroupLog u D body) [] s := by
  refine safe_within (inserts_framed r) (fetchGroupLog_within idle_refl u D body ?_ ?_ ?_) (.nil s)
  · exact fun _ _ => ⟨nofun, nofun⟩
  · exact fun _ => ⟨nofun, nofun⟩
  · exact fun e rows seeds => by cases ax <;> exact ⟨rfl, rfl, rfl, rfl⟩

theorem wp_ackGroupLog (u : Uin) (D : DeviceId) (rooms : List (GroupId × ℤ)) :
    (outline ax lane).Safe r (ackGroupLog u D rooms) [] s :=
  safe_within (inserts_framed r) (ackGroupLog_within idle_refl u D rooms
    (fun _ _ => ⟨nofun, nofun⟩) fun _ => ⟨nofun, nofun⟩) (.nil s)

theorem wp_joinGroup (gid : GroupId) (u : Uin) (refusal : Option HttpError) :
    (outline ax lane).Safe r (joinGroup gid u refusal) [] s := by
  refine safe_within (inserts_framed r) (joinGroup_within idle_refl gid u refusal ?_ ?_ ?_) (.nil s)
  · exact ⟨nofun, nofun⟩
  · exact fun _ _ => ⟨nofun, nofun⟩
  · exact fun e seeds => by cases ax <;> exact ⟨rfl, rfl, rfl, rfl⟩

theorem wp_touchUser (u : Uin) : (outline ax lane).Safe r (touchUser u) [] s :=
  safe_within (inserts_framed r) (touchUser_within idle_refl u fun _ => ⟨nofun, nofun⟩) (.nil s)

theorem wp_tick (seconds : ℕ) : (outline ax lane).wp r
      (.effect .clock fun _ e => { e with now := e.now + seconds } : Handler Unit)
      (fun _ _ _ => True) [] s :=
  safe_within (inserts_framed r)
    (.effect fun _ e => by cases ax <;> exact ⟨rfl, rfl, rfl, rfl⟩) (.nil s)

end RcqServer.Queue
