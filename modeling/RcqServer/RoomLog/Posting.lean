import RcqServer.RoomLog.Covered
import RcqServer.Messages.Footprint

/-!
# Posts keep the log covered

What a post has pending, from the moment it takes its sequences until it commits.  The
assertion `Posting` also holds of a transaction that writes nothing of the log, so it frames every
handler that only passes by.
-/

namespace RcqServer.RoomLog

open ReadCommitted Messages Outline List Shared

variable {r : Request} {s s' : State} {g : GroupId} {u : Uin} {D : DeviceId} {ws new : List Write}
  {e : Ext}

/-- A write that is none of the log's business. -/
def Foreign : Write → Prop
  | .groupSeq _ _ => False
  | .log _ _ _ => False
  | .logCursor _ _ _ _ => False
  | _ => True

/-- An effect that hands out no post and starts nobody. -/
def Idle (e e' : Ext) : Prop :=
  e'.logHanded = e.logHanded ∧ e'.seeded = e.seeded

theorem idle_refl (e : Ext) : Idle e e := ⟨rfl, rfl⟩

structure Posting (ws : List Write) (s : State) : Prop where
  cursors : ∀ g u D row, Write.logCursor g u D row ∉ ws
  seqs : ∀ g next, Write.groupSeq g next ∈ ws → ∃ k, next = some k ∧ s.db.head g ≤ k
  logs : ∀ g seq row, Write.log g seq row ∈ ws → RowKey.groupSeq g ∈ lockedRows Db ws ∧
    s.db.head g < seq ∧ (∀ k, Write.groupSeq g (some k) ∈ ws → seq ≤ k) ∧ row ≠ none
  /-- A sequence of the room that is out already is that of the one row which is pending. -/
  handed : ∀ event ∈ s.ext.logHanded, RowKey.groupSeq event.gid ∈ lockedRows Db ws →
    s.db.head event.gid < event.seq → ∃ row, Write.log event.gid event.seq (some row) ∈ ws ∧
      row.payload = event.payload ∧
      ∀ seq row', Write.log event.gid seq row' ∈ ws → seq = event.seq ∧ row' = some row

theorem groupSeq_mem_lockedRows :
    RowKey.groupSeq g ∈ lockedRows Db ws ↔ ∃ next, Write.groupSeq g next ∈ ws := by
  simp only [lockedRows, mem_map]
  constructor
  · rintro ⟨w, hw, hkey⟩
    cases w with
    | groupSeq g' next =>
      cases hkey
      exact ⟨next, hw⟩
    | _ => cases hkey
  · rintro ⟨next, hw⟩
    exact ⟨_, hw, rfl⟩

theorem Posting.nil (s : State) : Posting [] s where
  cursors := nofun
  seqs := nofun
  logs := nofun
  handed := nofun

theorem Posting.stable (h : Posting ws s) (hrely : Rely ws s s') : Posting ws s' where
  cursors := h.cursors
  seqs := by
    intro g next hnext
    obtain ⟨k, rfl, hle⟩ := h.seqs g next hnext
    have hstill := hrely.locked g (groupSeq_mem_lockedRows.mpr ⟨_, hnext⟩)
    exact ⟨k, rfl, hstill.head ▸ hle⟩
  logs := by
    intro g seq row hlog
    obtain ⟨hlocked, hlt, htop, hrow⟩ := h.logs g seq row hlog
    exact ⟨hlocked, (hrely.locked g hlocked).head ▸ hlt, htop, hrow⟩
  handed := by
    intro event hevent hlocked hlt
    have hstill := hrely.locked event.gid hlocked
    exact h.handed event (hstill.handed event hevent rfl hlt) hlocked (hstill.head ▸ hlt)

/-! ## Steps that leave the log alone -/

theorem Grows.tell (hhanded : ∀ event ∈ s.ext.logHanded, event ∈ e.logHanded)
    (hseeded : ∀ seed ∈ s.ext.seeded, seed ∈ e.seeded) : Grows s (s.tell e) :=
  ⟨fun _ => le_rfl, fun _ _ _ h => h, fun _ _ _ h => .inl h, hhanded, hseeded⟩

/-- Handing out more is safe if what is not committed yet stays beyond the head. -/
theorem Inv.tell (hinv : Inv s) (hgrows : Grows s (s.tell e))
    (hnew : ∀ event ∈ e.logHanded, event ∈ s.ext.logHanded ∨ s.db.head event.gid < event.seq) :
    Inv (s.tell e) where
  head := hinv.head
  rows := hinv.rows
  cursors := fun g u D c hc => (hinv.cursors g u D c hc).mono hgrows
  handed := by
    intro event hevent hle
    rcases hnew event hevent with hold | hlt
    · exact hinv.handed event hold hle
    · exact absurd hle (not_le.mpr hlt)

theorem step_idle (hinv : Inv s) (he : Idle s.ext e) (r : Request) {l : Label} (ws : List Write) :
    outline.Step r l ws s (s.tell e) := by
  have hgrows : Grows s (s.tell e) := by
    refine .tell ?_ ?_
    · rw [he.1]
      exact fun _ h => h
    · rw [he.2]
      exact fun _ h => h
  refine ⟨hinv.tell hgrows ?_, hgrows, fun g _ => ⟨rfl, fun _ => rfl, fun event hevent _ _ => ?_⟩⟩
  · rw [he.1]
    exact fun _ h => .inl h
  · rwa [tell_ext, he.1] at hevent

theorem Posting.append_foreign (h : Posting ws s) (hnew : ∀ w ∈ new, Foreign w)
    (he : Idle s.ext e) : Posting (ws ++ new) (s.tell e) := by
  have hseq : ∀ g next, Write.groupSeq g next ∈ ws ++ new → Write.groupSeq g next ∈ ws :=
    fun g next hmem => (mem_append.mp hmem).resolve_right fun h => hnew _ h
  have hlog : ∀ g seq row, Write.log g seq row ∈ ws ++ new → Write.log g seq row ∈ ws :=
    fun g seq row hmem => (mem_append.mp hmem).resolve_right fun h => hnew _ h
  have hlocked : ∀ g, RowKey.groupSeq g ∈ lockedRows Db (ws ++ new) →
      RowKey.groupSeq g ∈ lockedRows Db ws := by
    intro g hg
    obtain ⟨next, hnext⟩ := groupSeq_mem_lockedRows.mp hg
    exact groupSeq_mem_lockedRows.mpr ⟨next, hseq g next hnext⟩
  constructor
  case cursors =>
    intro g u D row hmem
    rcases mem_append.mp hmem with hold | hin
    · exact h.cursors g u D row hold
    · exact hnew _ hin
  case seqs => exact fun g next hnext => h.seqs g next (hseq g next hnext)
  case logs =>
    intro g seq row hmem
    obtain ⟨hg, hlt, htop, hrow⟩ := h.logs g seq row (hlog g seq row hmem)
    refine ⟨?_, hlt, fun k hk => htop k (hseq g _ hk), hrow⟩
    obtain ⟨next, hnext⟩ := groupSeq_mem_lockedRows.mp hg
    exact groupSeq_mem_lockedRows.mpr ⟨next, mem_append_left _ hnext⟩
  case handed =>
    intro event hevent hg hlt
    rw [tell_ext, he.1] at hevent
    obtain ⟨row, hmem, hpayload, honly⟩ := h.handed event hevent (hlocked _ hg) hlt
    exact ⟨row, mem_append_left _ hmem, hpayload,
      fun seq row' hrow' => honly seq row' (hlog _ seq row' hrow')⟩

/-! ## The commit of a post -/

section Commit

theorem head_view (h : Posting ws s) (g : GroupId) :
    s.db.head g ≤ (s.view ws).head g ∧ ((s.view ws).head g = s.db.head g ∨
      Write.groupSeq g (some ((s.view ws).head g)) ∈ ws) := by
  rcases sets_groupSeq.get_applyAll ws s.db g with hsame | hmem
  · have heq : (s.view ws).head g = s.db.head g := congrArg (Option.getD · 0) hsame
    exact ⟨heq.ge, .inl heq⟩
  · obtain ⟨k, hk, hle⟩ := h.seqs g _ hmem
    have heq : (s.view ws).head g = k := congrArg (Option.getD · 0) hk
    rw [hk] at hmem
    rw [heq]
    exact ⟨hle, .inr hmem⟩

/-- A committed row is not overwritten: the pending ones lie beyond the head. -/
private theorem log_view_of_some (h : Posting ws s) (hinv : Inv s) {seq : ℤ} {row : LogRow}
    (hrow : s.db.groupLog.get (g, seq) = some row) :
    (s.view ws).groupLog.get (g, seq) = some row := by
  rcases sets_groupLog.get_applyAll ws s.db (g, seq) with hsame | hmem
  · exact hsame.trans hrow
  · have := (h.logs g seq _ hmem).2.1
    have := (hinv.rows g seq row hrow).2
    omega

private theorem log_view_cases {seq : ℤ} {row : LogRow}
    (hrow : (s.view ws).groupLog.get (g, seq) = some row) :
    s.db.groupLog.get (g, seq) = some row ∨ Write.log g seq (some row) ∈ ws := by
  rcases sets_groupLog.get_applyAll ws s.db (g, seq) with hsame | hmem
  · exact .inl (hsame.symm.trans hrow)
  · rw [show (applyAll ws s.db).groupLog.get (g, seq) = some row from hrow] at hmem
    exact .inr hmem

private theorem Posting.grows (h : Posting ws s) (hinv : Inv s) (he : Idle s.ext e) :
    Grows s (s.commit ws e) where
  head := fun g => (head_view h g).1
  kept := fun _ _ _ hrow => log_view_of_some h hinv hrow
  fresh := by
    intro g seq row hrow
    rcases log_view_cases hrow with hold | hmem
    · exact .inl hold
    · obtain ⟨hlocked, hlt, -, -⟩ := h.logs g seq _ hmem
      refine .inr ⟨hlt, fun u D v payload hhanded hle => ?_⟩
      obtain ⟨row', -, hpayload, honly⟩ := h.handed _ hhanded hlocked (hlt.trans_le hle)
      obtain ⟨rfl, heq⟩ := honly seq _ hmem
      obtain rfl : row = row' := Option.some.inj heq
      obtain rfl : row.payload = payload := hpayload
      rw [Handed, commit_ext, he.1]
      exact hhanded
  handed := by
    rw [commit_ext, he.1]
    exact fun _ h => h
  seeded := by
    rw [commit_ext, he.2]
    exact fun _ h => h

theorem Posting.step_commit (h : Posting ws s) (hinv : Inv s) (he : Idle s.ext e) (r : Request)
    {l : Label} : outline.Step r l ws s (s.commit ws e) := by
  have hgrows := h.grows hinv he
  refine ⟨?_, ⟨hgrows, fun g hg => ?_⟩⟩
  · constructor
    case head => exact fun g => (hinv.head g).trans (hgrows.head g)
    case rows =>
      intro g seq row hrow
      rcases log_view_cases hrow with hold | hmem
      · obtain ⟨hpos, hle⟩ := hinv.rows g seq row hold
        exact ⟨hpos, hle.trans (hgrows.head g)⟩
      · obtain ⟨hlocked, hlt, htop, -⟩ := h.logs g seq _ hmem
        refine ⟨(hinv.head g).trans_lt hlt, ?_⟩
        obtain ⟨next, hnext⟩ := groupSeq_mem_lockedRows.mp hlocked
        have hwritten := sets_groupSeq.get_applyAll_of_mem hnext s.db
        obtain ⟨k, hk, -⟩ := h.seqs g _ hwritten
        rw [hk] at hwritten
        have hhead : (s.view ws).head g = k := congrArg (Option.getD · 0) hk
        rw [commit_db, hhead]
        exact htop k hwritten
    case cursors =>
      intro g u D c hc
      refine (hinv.cursors g u D c ?_).mono hgrows
      rwa [commit_db, view,
        sets_groupLogCursors.get_applyAll_of_notMem (fun row => h.cursors g u D row)] at hc
    case handed =>
      intro event hevent hle
      rw [commit_ext, he.1] at hevent
      by_cases hold : event.seq ≤ s.db.head event.gid
      · obtain ⟨row, hrow, hpayload⟩ := hinv.handed event hevent hold
        exact ⟨row, log_view_of_some h hinv hrow, hpayload⟩
      · -- the head moved beyond it, so its row is the pending one
        have hlocked : RowKey.groupSeq event.gid ∈ lockedRows Db ws := by
          rcases (head_view h event.gid).2 with hsame | hmem
          · rw [commit_db, hsame] at hle
            exact absurd hle hold
          · exact groupSeq_mem_lockedRows.mpr ⟨_, hmem⟩
        obtain ⟨row, hmem, hpayload, honly⟩ := h.handed event hevent hlocked (by omega)
        have hwritten := sets_groupLog.get_applyAll_of_mem
          (k := (event.gid, event.seq)) hmem s.db
        exact ⟨row, (honly _ _ hwritten).2, hpayload⟩
  · refine ⟨?_, fun seq => ?_, fun event hevent _ _ => ?_⟩
    · rcases (head_view h g).2 with hsame | hmem
      · exact hsame
      · exact absurd (groupSeq_mem_lockedRows.mpr ⟨_, hmem⟩) hg
    · exact sets_groupLog.get_applyAll_of_notMem (k := (g, seq))
        (fun row hmem => hg (h.logs g seq row hmem).1) s.db
    · rwa [commit_ext, he.1] at hevent

end Commit

/-- Whatever does not touch the log keeps what a post has pending. -/
theorem posting_framed (r : Request) : outline.Framed r Foreign Idle Posting where
  stable := fun _ _ _ _ h hrely _ => h.stable hrely
  stmt := fun _ _ _ _ _ h hinv hnew he => ⟨step_idle hinv he r _, h.append_foreign hnew he⟩
  commit := fun _ _ _ _ h hinv he => ⟨h.step_commit hinv he r, .nil _⟩
  rollback := fun _ s _ => .nil s

/-! ## Taking sequences and inserting rows -/

/-- The post has taken the sequences of a room up to `top`, and nothing else has happened. -/
structure Allocated (g : GroupId) (top : ℤ) (ws : List Write) (s : State) : Prop where
  posting : Posting ws s
  locked : RowKey.groupSeq g ∈ lockedRows Db ws
  top : ∀ k, Write.groupSeq g (some k) ∈ ws → top ≤ k
  unlogged : ∀ seq row, Write.log g seq row ∉ ws
  unheard : Unheard s g

theorem Unheard.stable (h : Unheard s g) (hstill : Still g s s') : Unheard s' g := by
  intro event hevent hgid
  by_contra hlt
  have := h event (hstill.handed event hevent hgid (by omega)) hgid
  rw [hstill.head] at hlt
  exact hlt this

variable {top : ℤ} {payload : String}

theorem Allocated.stable (h : Allocated g top ws s) (hrely : Rely ws s s') :
    Allocated g top ws s' :=
  ⟨h.posting.stable hrely, h.locked, h.top, h.unlogged, h.unheard.stable (hrely.locked g h.locked)⟩

/-- No sequence is taken and no row is logged yet. -/
structure Unposted (ws : List Write) (s : State) : Prop where
  posting : Posting ws s
  seqs : ∀ g next, Write.groupSeq g next ∉ ws

theorem Unposted.unlogged (h : Unposted ws s) (g : GroupId) (seq : ℤ) (row : Option LogRow) :
    Write.log g seq row ∉ ws := by
  intro hmem
  obtain ⟨next, hnext⟩ := groupSeq_mem_lockedRows.mp (h.posting.logs g seq row hmem).1
  exact h.seqs g next hnext

theorem Unposted.head_view (h : Unposted ws s) (g : GroupId) : (s.view ws).head g = s.db.head g :=
  congrArg (Option.getD · 0) (sets_groupSeq.get_applyAll_of_notMem (h.seqs g) s.db)

theorem unposted_framed (r : Request) : outline.Framed r Foreign Idle Unposted where
  stable := fun _ _ _ _ h hrely _ => ⟨h.posting.stable hrely, h.seqs⟩
  stmt := by
    intro _ ws s new e h hinv hnew he
    refine ⟨step_idle hinv he r _, h.posting.append_foreign hnew he, fun g next hmem => ?_⟩
    exact (mem_append.mp hmem).elim (h.seqs g next) (hnew _)
  commit := fun _ _ _ _ h hinv he =>
    ⟨h.posting.step_commit hinv he r, .nil _, nofun⟩
  rollback := fun _ s _ => ⟨.nil s, nofun⟩

/-- The upsert of `_next_group_seq` and `_next_group_seqs`. -/
theorem Unposted.allocate (h : Unposted ws s) (hunheard : Unheard s g)
    (htop : s.db.head g ≤ top) : Allocated g top (ws ++ [.groupSeq g (some top)]) s := by
  have hseq : ∀ g' next, Write.groupSeq g' next ∈ ws ++ [.groupSeq g (some top)] →
      g' = g ∧ next = some top := by
    intro g' next hmem
    rcases mem_append.mp hmem with hold | hin
    · exact absurd hold (h.seqs g' next)
    · cases mem_singleton.mp hin
      exact ⟨rfl, rfl⟩
  have hlog : ∀ g' seq row, Write.log g' seq row ∉ ws ++ [.groupSeq g (some top)] :=
    fun g' seq row hmem => (mem_append.mp hmem).elim (h.unlogged g' seq row) (by simp)
  refine ⟨⟨?_, ?_, ?_, ?_⟩, ?_, ?_, hlog g, hunheard⟩
  · intro g' u D row hmem
    exact (mem_append.mp hmem).elim (h.posting.cursors g' u D row) (by simp)
  · intro g' next hmem
    obtain ⟨rfl, rfl⟩ := hseq g' next hmem
    exact ⟨top, rfl, htop⟩
  · exact fun g' seq row hmem => absurd hmem (hlog g' seq row)
  · intro event hevent hlocked hlt
    obtain ⟨next, hnext⟩ := groupSeq_mem_lockedRows.mp hlocked
    obtain ⟨hgid, -⟩ := hseq _ next hnext
    have := hunheard event hevent hgid
    rw [hgid] at hlt
    omega
  · exact groupSeq_mem_lockedRows.mpr ⟨some top, by simp⟩
  · intro k hk
    obtain ⟨-, hk⟩ := hseq g _ hk
    exact (Option.some.inj hk).ge

/-- Rows for sequences that the post has taken. -/
theorem Allocated.log {rows : List (ℤ × LogRow)} (h : Allocated g top ws s)
    (hrows : ∀ x ∈ rows, s.db.head g < x.1 ∧ x.1 ≤ top) :
    Posting (ws ++ rows.map fun x => .log g x.1 (some x.2)) s := by
  have hseq : ∀ g' next, Write.groupSeq g' next ∈ ws ++ rows.map (fun x => .log g x.1 (some x.2)) →
      Write.groupSeq g' next ∈ ws := by
    intro g' next hmem
    refine (mem_append.mp hmem).resolve_right fun hin => ?_
    obtain ⟨x, -, heq⟩ := mem_map.mp hin
    cases heq
  have hmono : ∀ g', RowKey.groupSeq g' ∈ lockedRows Db ws ↔
      RowKey.groupSeq g' ∈ lockedRows Db (ws ++ rows.map fun x => .log g x.1 (some x.2)) := by
    intro g'
    simp only [groupSeq_mem_lockedRows]
    exact ⟨fun ⟨next, h⟩ => ⟨next, mem_append_left _ h⟩,
      fun ⟨next, h⟩ => ⟨next, hseq g' next h⟩⟩
  constructor
  case cursors =>
    intro g' u D row hmem
    rcases mem_append.mp hmem with hold | hin
    · exact h.posting.cursors g' u D row hold
    · obtain ⟨x, -, heq⟩ := mem_map.mp hin
      cases heq
  case seqs => exact fun g' next hmem => h.posting.seqs g' next (hseq g' next hmem)
  case logs =>
    intro g' seq row hmem
    rcases mem_append.mp hmem with hold | hin
    · obtain ⟨hlocked, hlt, htop, hrow⟩ := h.posting.logs g' seq row hold
      exact ⟨(hmono g').mp hlocked, hlt, fun k hk => htop k (hseq g' _ hk), hrow⟩
    · obtain ⟨x, hx, heq⟩ := mem_map.mp hin
      cases heq
      obtain ⟨hlt, hle⟩ := hrows x hx
      exact ⟨(hmono g).mp h.locked, hlt, fun k hk => hle.trans (h.top k (hseq g _ hk)), by simp⟩
  case handed =>
    intro event hevent hlocked hlt
    by_cases hgid : event.gid = g
    · have := h.unheard event hevent hgid
      rw [hgid] at hlt
      omega
    · obtain ⟨row, hmem, hpayload, honly⟩ :=
        h.posting.handed event hevent ((hmono _).mpr hlocked) hlt
      refine ⟨row, mem_append_left _ hmem, hpayload, fun seq row' hrow' => ?_⟩
      refine honly seq row' ((mem_append.mp hrow').resolve_right fun hin => ?_)
      obtain ⟨x, -, heq⟩ := mem_map.mp hin
      cases heq
      exact hgid rfl

/-! ## The live frame -/

/-- The one row of a broadcast is pending, and nobody has been handed it. -/
structure Logged (g : GroupId) (seq : ℤ) (payload : String) (ws : List Write) (s : State) :
    Prop where
  posting : Posting ws s
  locked : RowKey.groupSeq g ∈ lockedRows Db ws
  unheard : Unheard s g
  ahead : s.db.head g < seq
  row : ∃ row, Write.log g seq (some row) ∈ ws ∧ row.payload = payload ∧
    ∀ seq' row', Write.log g seq' row' ∈ ws → seq' = seq ∧ row' = some row

theorem Logged.stable {seq : ℤ} (h : Logged g seq payload ws s)
    (hrely : Rely ws s s') : Logged g seq payload ws s' := by
  have hstill := hrely.locked g h.locked
  exact ⟨h.posting.stable hrely, h.locked, h.unheard.stable hstill, hstill.head ▸ h.ahead, h.row⟩

theorem Logged.step_publish {seq : ℤ} (h : Logged g seq payload ws s)
    (hinv : Inv s) (recipients : List Uin) (env : PostEnv) (r : Request) {l : Label} :
    outline.Step r l ws s (s.tell (s.ext.publish recipients env g seq payload)) ∧
      Posting ws (s.tell (s.ext.publish recipients env g seq payload)) := by
  have hnew : ∀ event ∈ (s.ext.publish recipients env g seq payload).logHanded,
      event ∈ s.ext.logHanded ∨ (event.gid = g ∧ event.seq = seq ∧ event.payload = payload) := by
    intro event hevent
    rcases mem_append.mp hevent with hin | hold
    · obtain ⟨x, -, rfl⟩ := mem_map.mp hin
      exact .inr ⟨rfl, rfl, rfl⟩
    · exact .inl hold
  have hgrows : Grows s (s.tell (s.ext.publish recipients env g seq payload)) :=
    .tell (fun _ hold => mem_append_right _ hold) fun _ hold => hold
  refine ⟨⟨hinv.tell hgrows ?_, hgrows, ?_⟩,
    ⟨h.posting.cursors, h.posting.seqs, h.posting.logs, ?_⟩⟩
  · intro event hevent
    rcases hnew event hevent with hold | ⟨hgid, hseq, -⟩
    · exact .inl hold
    · rw [hgid, hseq]
      exact .inr h.ahead
  · intro g' hg'
    refine ⟨rfl, fun _ => rfl, fun event hevent hgid _ => ?_⟩
    rcases hnew event hevent with hold | ⟨hgid', -, -⟩
    · exact hold
    · rw [← hgid, hgid'] at hg'
      exact absurd h.locked hg'
  · intro event hevent hlocked hlt
    rcases hnew event hevent with hold | ⟨hgid, hseq, hpayload⟩
    · exact h.posting.handed event hold hlocked hlt
    · rw [hgid, hseq, hpayload]
      exact h.row

/-! ## Posts -/

variable (hcond : ∀ s, Cond r .nextGroupSeq s → Unheard s g)

include hcond

theorem wp_nextGroupSeqs {count : ℕ} (h : Unposted ws s) :
    outline.wp r (nextGroupSeqs g count) (fun seqs ws s => (seqs = [] ∧ Posting ws s) ∨
      ∃ top, Allocated g top ws s ∧ ∀ x ∈ seqs, s.db.head g < x ∧ x ≤ top) ws s := by
  unfold nextGroupSeqs
  split
  · exact .inl ⟨rfl, h.posting⟩
  · refine wp_write outline_coherent fun s₁ hrely hinv hnow => .inr ?_
    have h₁ : Unposted ws s₁ := ⟨h.posting.stable hrely, h.seqs⟩
    rw [h₁.head_view g]
    refine ⟨_, h₁.allocate (hcond s₁ hnow) (by omega), fun x hx => ?_⟩
    obtain ⟨i, hi, rfl⟩ := mem_map.mp hx
    have := mem_range.mp hi
    omega

theorem wp_nextGroupSeq (h : Unposted ws s) : outline.wp r (nextGroupSeq g)
      (fun seq ws s => Allocated g seq ws s ∧ s.db.head g < seq) ws s := by
  refine wp_write outline_coherent fun s₁ hrely hinv hnow => ?_
  have h₁ : Unposted ws s₁ := ⟨h.posting.stable hrely, h.seqs⟩
  rw [h₁.head_view g]
  exact ⟨h₁.allocate (hcond s₁ hnow) (by omega), by omega⟩

omit hcond in
/-- The `INSERT` into the log, for sequences that the post has taken. -/
theorem wp_insertLog {rows : List (ℤ × LogRow)} (h : Allocated g top ws s)
    (hrows : ∀ x ∈ rows, s.db.head g < x.1 ∧ x.1 ≤ top) :
    outline.wp r (insertLog g rows) (fun _ ws' s' =>
      ws' = ws ++ rows.map (fun x => .log g x.1 (some x.2)) ∧ Allocated g top ws s' ∧
        Posting ws' s' ∧ s'.db.head g = s.db.head g) ws s := by
  unfold insertLog
  split
  · rename_i hnil
    subst hnil
    exact ⟨by simp, h, h.posting, rfl⟩
  · intro s₁ hrely hinv _
    have h₁ := h.stable hrely
    have hhead := (hrely.locked g h.locked).head
    refine ⟨step_idle hinv (idle_refl _) r _, ?_⟩
    rw [tell_same]
    beta_reduce
    split
    · exact trivial
    · refine ⟨rfl, h₁, h₁.log fun x hx => ?_, hhead⟩
      rw [hhead]
      exact hrows x hx

/-- The row of a broadcast, if anybody reads the log. -/
theorem wp_logBroadcast {readers : List Uin} {row : LogRow} (h : Unposted ws s) :
    outline.wp r (logBroadcast g readers row) (fun seq ws s => match seq with
      | none => Posting ws s
      | some seq => Logged g seq row.payload ws s) ws s := by
  unfold logBroadcast
  split
  · exact h.posting
  · refine wp_seq (wp_nextGroupSeq hcond h) ?_
    rintro seq ws s ⟨halloc, hlt⟩
    refine wp_seq (wp_insertLog halloc (by simpa using hlt)) ?_
    rintro _ ws' s' ⟨rfl, halloc', hposting, hhead⟩
    refine ⟨hposting, ?_, halloc'.unheard, by rwa [hhead], row, by simp, rfl, ?_⟩
    · obtain ⟨next, hnext⟩ := groupSeq_mem_lockedRows.mp halloc.locked
      exact groupSeq_mem_lockedRows.mpr ⟨next, mem_append_left _ hnext⟩
    · intro seq' row' hmem
      rcases mem_append.mp hmem with hold | hin
      · exact absurd hold (halloc.unlogged seq' row')
      · simp only [map_cons, map_nil, mem_singleton, Write.log.injEq,
          true_and] at hin
        exact hin

omit hcond in
theorem wp_publishBroadcast {seq : Option ℤ} {recipients : List Uin} {env : PostEnv} (h : match seq with
      | none => Posting ws s
      | some seq => Logged g seq payload ws s) :
    outline.wp r (publishBroadcast recipients env g seq payload) (fun _ ws s => Posting ws s)
      ws s := by
  refine wp_effect fun s₁ hrely hinv _ => ?_
  cases seq with
  | none => exact ⟨step_idle hinv (idle_refl _) r ws, h.stable hrely⟩
  | some seq => exact (h.stable hrely).step_publish hinv recipients env r

omit hcond

theorem Unposted.nil (s : State) : Unposted [] s := ⟨.nil s, nofun⟩

/-- The end of a post: its legacy rows and the commit. -/
private theorem wp_finishPost {β : Type} {rows : List QueuedRow} {a : β} (h : Posting ws s) :
    outline.Safe r ((insertGroupMessages rows).bind fun _ =>
      (Prog.commitOnly .commit : Handler Unit).bind fun _ => .ret a) ws s :=
  safe_within (posting_framed r) (finishPost_within idle_refl (fun _ _ => trivial)
    fun _ _ => ⟨rfl, rfl⟩) h

theorem wp_sendGroupSealed (cfg : Config) (body : GroupSealedSendIn) (caller : Option Uin)
    (env : PostEnv) :
    outline.Safe (.sendGroupSealed body caller env) (sendGroupSealed cfg body caller env) [] s := by
  refine wp_sendGroupSealed_of idle_refl (unposted_framed _) (.nil s) cfg body caller env
    fun ws s addressed now legacy out h => ?_
  refine wp_seq (wp_nextGroupSeqs (r := .sendGroupSealed body caller env) (g := body.groupId)
    (fun _ h => h) h) ?_
  rintro seqs ws s (⟨rfl, h⟩ | ⟨top, h, hseqs⟩)
  · exact wp_finishPost h
  · refine wp_seq (wp_insertLog h fun x hx => ?_) fun _ ws s h => wp_finishPost h.2.2.1
    obtain ⟨y, hy, rfl⟩ := mem_map.mp hx
    exact hseqs _ (of_mem_zip hy).1

theorem wp_sendGroupBroadcast (cfg : Config) (body : GroupBroadcastIn) (caller : Option Uin)
    (env : PostEnv) :
    outline.Safe (.sendGroupBroadcast body caller env) (sendGroupBroadcast cfg body caller env)
      [] s := by
  refine wp_sendGroupBroadcast_of idle_refl (unposted_framed _) (.nil s) cfg body caller env
    fun ws s readers row recipients legacy out h hpayload => ?_
  rw [← hpayload]
  refine wp_seq (wp_logBroadcast (r := .sendGroupBroadcast body caller env)
    (g := body.groupId) (fun _ h => h) h) fun seq ws s h => ?_
  exact wp_seq (wp_publishBroadcast h) fun _ ws s h => wp_finishPost h

end RcqServer.RoomLog
