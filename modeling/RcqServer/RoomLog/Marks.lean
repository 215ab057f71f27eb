import RcqServer.RoomLog.Alone

/-!
# Reader marks and cursors

A reader mark tells the writers that an account needs no legacy rows.  That is safe for a room
only if the marked install has a cursor there: otherwise its next fetch starts it at the head,
beyond every post that was withheld in between.  `MarksOk` is the invariant that ties the two
tables together, and this module proves that each kind of request keeps it when it is served
alone; for fetches and acks this needs that a mark is not earned in some of the account's rooms
only (`Complete`).

* A fetch or an ack creates the cursors of the rooms that it is about before it marks.
* A join seats every marked install at the head.
* A post puts its rows above the head, which no cursor has passed.
-/

namespace RcqServer.RoomLog

open ReadCommitted Messages List Prog Table

variable {u : Uin} {D : DeviceId} {ws : List Write} {s : State} {db db' : Db}

/-- Marked installs have cursors in their rooms, and neither cursors nor rows lie beyond the
head. -/
structure MarksOk (db : Db) : Prop where
  seated : ∀ g u D, (db.groupLogReaders.get (u, D)).isSome → (db.members.get (g, u)).isSome →
    (db.groupLogCursors.get (g, u, D)).isSome
  cursors : ∀ g u D c, db.groupLogCursors.get (g, u, D) = some c → c.lastSeq ≤ db.head g
  head : ∀ g, 0 ≤ db.head g
  rows : ∀ g seq row, db.groupLog.get (g, seq) = some row → seq ≤ db.head g

/-- The install has a cursor in every room of the account that is not among `rooms`. -/
def Complete (db : Db) (u : Uin) (D : DeviceId) (rooms : List GroupId) : Prop :=
  ∀ g ∈ db.roomsOf u, g ∈ rooms ∨ (db.groupLogCursors.get (g, u, D)).isSome

theorem mem_roomsOf {g : GroupId} : g ∈ db.roomsOf u ↔ (db.members.get (g, u)).isSome := by
  simp only [Db.roomsOf, mem_map, Prod.exists, mem_select, beq_iff_eq,
    Option.isSome_iff_exists]
  constructor
  · rintro ⟨g', u', row, ⟨hget, rfl⟩, rfl⟩
    exact ⟨row, hget⟩
  · rintro ⟨row, hget⟩
    exact ⟨g, u, row, ⟨hget, rfl⟩, rfl⟩

/-! ## Fetches and acks -/

/-- A mark on top of a store in which the install has its cursors. -/
theorem MarksOk.mark (h : MarksOk db)
    (hseated : ∀ g, (db.members.get (g, u)).isSome → (db.groupLogCursors.get (g, u, D)).isSome)
    (hmarked : Marked u D db db') : MarksOk db' := by
  obtain ⟨mark, rfl⟩ := hmarked
  refine ⟨fun g u' D' hmark hmember => ?_, h.cursors, h.head, h.rows⟩
  by_cases hkey : (u', D') = (u, D)
  · cases hkey
    exact hseated g hmember
  · have hold : (Write.apply (.reader u D (some mark)) db).groupLogReaders.get (u', D') =
        db.groupLogReaders.get (u', D') := get_set_ne _ hkey _
    rw [hold] at hmark
    exact h.seated g u' D' hmark hmember

theorem Seeded.hasCursor {rooms : List GroupId} (h : Seeded u D rooms db db')
    {k : GroupId × Uin × DeviceId} (hk : (db.groupLogCursors.get k).isSome) :
    (db'.groupLogCursors.get k).isSome := by
  obtain ⟨c, hc⟩ := Option.isSome_iff_exists.mp hk
  rw [h.kept k c hc]
  rfl

theorem MarksOk.seed {rooms : List GroupId} (h : MarksOk db) (hseeded : Seeded u D rooms db db') :
    MarksOk db' where
  seated := by
    intro g u' D' hmark hmember
    rw [hseeded.readers] at hmark
    rw [hseeded.members] at hmember
    exact hseeded.hasCursor (h.seated g u' D' hmark hmember)
  cursors := by
    intro g u' D' c hc
    rw [hseeded.head]
    cases hold : db.groupLogCursors.get (g, u', D') with
    | some old =>
      rw [hseeded.kept _ old hold] at hc
      cases hc
      exact h.cursors g u' D' _ hold
    | none =>
      rcases hseeded.fresh _ hold with hnone | ⟨g', t, -, hk, hsome⟩
      · rw [hnone] at hc
        cases hc
      · cases hk
        rw [hsome] at hc
        cases hc
        exact max_le (h.head g) le_rfl
  head := fun g => by rw [hseeded.head]; exact h.head g
  rows := by
    intro g seq row hrow
    rw [hseeded.groupLog] at hrow
    rw [hseeded.head]
    exact h.rows g seq row hrow

theorem MarksOk.ack {rooms : List (GroupId × ℤ)} (h : MarksOk db)
    (hupto : ∀ x ∈ rooms, x.2 ≤ db.head x.1) (hacked : Acked u D rooms db db') : MarksOk db' := by
  have hhead : ∀ g, db'.head g = db.head g := fun g => by
    unfold Db.head
    rw [hacked.groupSeq]
  refine ⟨fun g u' D' hmark hmember => ?_, fun g u' D' c' hc' => ?_, fun g => ?_,
    fun g seq row hrow => ?_⟩
  · rw [hacked.readers] at hmark
    rw [hacked.members] at hmember
    obtain ⟨c, hc⟩ := Option.isSome_iff_exists.mp (h.seated g u' D' hmark hmember)
    obtain ⟨c', hc', -⟩ := hacked.kept _ c hc
    rw [hc']
    rfl
  · rw [hhead]
    rcases hacked.source _ c' hc' with ⟨c, hc, heq⟩ | ⟨x, hx, hk, heq⟩
    · rw [← heq]
      exact h.cursors g u' D' c hc
    · cases hk
      rw [heq]
      exact hupto x hx
  · rw [hhead]
    exact h.head g
  · rw [hacked.groupLog] at hrow
    rw [hhead]
    exact h.rows g seq row hrow

theorem Complete.of_seeded {rooms : List GroupId} (h : Complete db u D rooms)
    (hseeded : Seeded u D rooms db db') {g : GroupId} (hmember : (db'.members.get (g, u)).isSome) :
    (db'.groupLogCursors.get (g, u, D)).isSome := by
  rw [hseeded.members] at hmember
  rcases h g (mem_roomsOf.mpr hmember) with hroom | hcursor
  · obtain ⟨c, hc⟩ := hseeded.seated g hroom
    rw [hc]
    rfl
  · exact hseeded.hasCursor hcursor

theorem Complete.of_acked {rooms : List (GroupId × ℤ)} (h : Complete db u D (rooms.map Prod.fst))
    (hacked : Acked u D rooms db db') {g : GroupId} (hmember : (db'.members.get (g, u)).isSome) :
    (db'.groupLogCursors.get (g, u, D)).isSome := by
  rw [hacked.members] at hmember
  rcases h g (mem_roomsOf.mpr hmember) with hroom | hcursor
  · obtain ⟨x, hx, rfl⟩ := mem_map.mp hroom
    obtain ⟨c, hc, -⟩ := hacked.reached x hx
    rw [hc]
    rfl
  · obtain ⟨c, hc⟩ := Option.isSome_iff_exists.mp hcursor
    obtain ⟨c', hc', -⟩ := hacked.kept _ c hc
    rw [hc']
    rfl

/-- An install that is marked has its cursors already. -/
theorem MarksOk.complete (h : MarksOk db) (hmark : (db.groupLogReaders.get (u, D)).isSome)
    (rooms : List GroupId) : Complete db u D rooms :=
  fun g hg => .inr (h.seated g u D hmark (mem_roomsOf.mp hg))

/-! ## Posts -/

/-- The store after a post into room `g`: more rows there, above the head. -/
structure Posted (g : GroupId) (db db' : Db) : Prop where
  members : db'.members = db.members
  readers : db'.groupLogReaders = db.groupLogReaders
  cursors : db'.groupLogCursors = db.groupLogCursors
  head : ∀ g', db.head g' ≤ db'.head g'
  kept : ∀ k row, db.groupLog.get k = some row → db'.groupLog.get k = some row
  fresh : ∀ g' seq row, db'.groupLog.get (g', seq) = some row →
    db.groupLog.get (g', seq) = some row ∨ g' = g ∧ db.head g < seq ∧ seq ≤ db'.head g

section Posted

variable {g : GroupId}

theorem Posted.refl (db : Db) : Posted g db db where
  members := rfl
  readers := rfl
  cursors := rfl
  head := fun _ => le_rfl
  kept := fun _ _ h => h
  fresh := fun _ _ _ h => .inl h

theorem head_groupSeq (g g' : GroupId) (next : ℤ) :
    (Write.apply (.groupSeq g (some next)) db).head g' = if g' = g then next else db.head g' := by
  unfold Db.head
  rw [show (Write.apply (.groupSeq g (some next)) db).groupSeq.get g' =
    if g' = g then some next else db.groupSeq.get g' from get_set _ _ _ _]
  split <;> rfl

theorem Posted.seq (h : Posted g db db') {next : ℤ} (hnext : db'.head g ≤ next) :
    Posted g db (Write.apply (.groupSeq g (some next)) db') := by
  have hhead : ∀ g', db'.head g' ≤ (Write.apply (.groupSeq g (some next)) db').head g' := by
    intro g'
    rw [head_groupSeq]
    split
    · rename_i heq
      rwa [heq]
    · exact le_rfl
  refine ⟨h.members, h.readers, h.cursors, fun g' => (h.head g').trans (hhead g'), h.kept, ?_⟩
  intro g' seq row hrow
  refine (h.fresh g' seq row hrow).imp_right ?_
  rintro ⟨rfl, hlt, hle⟩
  exact ⟨rfl, hlt, hle.trans (hhead g')⟩

theorem Posted.log (h : Posted g db db') (hok : MarksOk db) {seq : ℤ} {row : LogRow}
    (hlt : db.head g < seq) (hle : seq ≤ db'.head g) :
    Posted g db (Write.apply (.log g seq (some row)) db') := by
  have hget : ∀ k, (Write.apply (.log g seq (some row)) db').groupLog.get k =
      if k = (g, seq) then some row else db'.groupLog.get k := fun k => get_set _ _ _ _
  refine ⟨h.members, h.readers, h.cursors, h.head, fun k old hk => ?_, fun g' seq' row' hrow => ?_⟩
  · rw [hget, if_neg]
    · exact h.kept k old hk
    · rintro rfl
      exact absurd (hok.rows g seq old hk) (not_le.mpr hlt)
  · rw [hget] at hrow
    split at hrow
    · rename_i hkey
      cases hkey
      exact .inr ⟨rfl, hlt, hle⟩
    · exact h.fresh g' seq' row' hrow

theorem Posted.queued (h : Posted g db db') (ax : Axis) (id : ℕ) (row : Option QueuedRow) :
    Posted g db (Write.apply (.queued ax id row) db') := by
  cases ax <;> exact ⟨h.members, h.readers, h.cursors, h.head, h.kept, h.fresh⟩

theorem MarksOk.post (h : MarksOk db) (hposted : Posted g db db') : MarksOk db' where
  seated := by
    intro g' u' D' hmark hmember
    rw [hposted.readers] at hmark
    rw [hposted.members] at hmember
    rw [hposted.cursors]
    exact h.seated g' u' D' hmark hmember
  cursors := by
    intro g' u' D' c hc
    rw [hposted.cursors] at hc
    exact (h.cursors g' u' D' c hc).trans (hposted.head g')
  head := fun g' => (h.head g').trans (hposted.head g')
  rows := by
    intro g' seq row hrow
    rcases hposted.fresh g' seq row hrow with hold | ⟨rfl, -, hle⟩
    · exact (h.rows g' seq row hold).trans (hposted.head g')
    · exact hle

/-! ### The parts of a post -/

variable {R : State → Prop} {db₀ : Db}

theorem wlp_refuse {refusal : Option HttpError} {Q : Unit → List Write → State → Prop} (hR : R s)
    (hQ : Q () ws s) : (refuse refusal).wlp R Q ws s := by
  cases refusal with
  | none => exact hQ
  | some e => exact hR

theorem wlp_onlyIf_refuse {c : Prop} [Decidable c] {refusal : Option HttpError}
    {Q : Unit → List Write → State → Prop} (hR : R s) (hQ : Q () ws s) :
    (onlyIf c (refuse refusal)).wlp R Q ws s :=
  wlp_onlyIf (fun _ => wlp_refuse hR hQ) fun _ => hQ

/-- The accounts among `uins` that need no legacy row. -/
def readersAmong (db : Db) (uins : List Uin) : List Uin :=
  (db.hasReader uins).filter fun u => u ∉ db.blocked (db.hasReader uins)

theorem wlp_logReaders {uins : List Uin} {Q : List Uin → List Write → State → Prop}
    (hQ : Q (readersAmong (s.view ws) uins) ws s) : (logReaders uins).wlp R Q ws s := by
  unfold logReaders
  split
  · rename_i hnil
    have hnone : readersAmong (s.view ws) uins = [] := by simp [readersAmong, Db.hasReader, hnil]
    rw [hnone] at hQ
    exact hQ
  · refine wlp_read_bind ?_
    split
    · rename_i hnil
      have hnone : readersAmong (s.view ws) uins = [] := by simp [readersAmong, hnil]
      rw [hnone] at hQ
      exact hQ
    · exact wlp_bind.mpr (wlp_read.mpr hQ)

theorem mem_seqsAbove {head q : ℤ} {count : ℕ} (hq : q ∈ seqsAbove head count) :
    head < q ∧ q ≤ head + count := by
  obtain ⟨i, hi, rfl⟩ := mem_map.mp hq
  have := mem_range.mp hi
  constructor <;> omega

theorem seqsAbove_nodup (head : ℤ) (count : ℕ) : (seqsAbove head count).Nodup := by
  refine Nodup.map (fun i j hij => ?_) nodup_range
  omega

theorem wlp_nextGroupSeqs {count : ℕ} (h : Posted g db₀ (s.view ws)) :
    (nextGroupSeqs g count).wlp R (fun seqs ws' s' => s' = s ∧ Posted g db₀ (s.view ws') ∧
      seqs.length = count ∧ seqs.Nodup ∧
      ∀ q ∈ seqs, db₀.head g < q ∧ q ≤ (s.view ws').head g) ws s := by
  unfold nextGroupSeqs
  split
  · rename_i hzero
    exact ⟨rfl, h, by rw [hzero]; rfl, nodup_nil, nofun⟩
  · refine wlp_write.mpr ⟨rfl, ?_, by simp [seqsAbove], seqsAbove_nodup _ _, fun q hq => ?_⟩
    · rw [view_concat]
      exact h.seq (by omega)
    · obtain ⟨hlt, hle⟩ := mem_seqsAbove hq
      rw [view_concat, head_groupSeq, if_pos rfl]
      exact ⟨(h.head g).trans_lt hlt, hle⟩

theorem wlp_nextGroupSeq (h : Posted g db₀ (s.view ws)) :
    (nextGroupSeq g).wlp R (fun seq ws' s' => s' = s ∧ Posted g db₀ (s.view ws') ∧
      db₀.head g < seq ∧ seq ≤ (s.view ws').head g) ws s := by
  refine wlp_write.mpr ⟨rfl, ?_, ?_, ?_⟩
  · rw [view_concat]
    exact h.seq (by omega)
  · exact (h.head g).trans_lt (by omega)
  · rw [view_concat, head_groupSeq, if_pos rfl]

theorem wlp_insertLog {rows : List (ℤ × LogRow)} (hR : R s) (hok : MarksOk db₀)
    (h : Posted g db₀ (s.view ws)) (hnodup : (rows.map Prod.fst).Nodup)
    (hseqs : ∀ r ∈ rows, db₀.head g < r.1 ∧ r.1 ≤ (s.view ws).head g) :
    (insertLog g rows).wlp R (fun _ ws' s' => s' = s ∧ Posted g db₀ (s.view ws') ∧
      ∀ r ∈ rows, (s.view ws').groupLog.get (g, r.1) = some r.2) ws s := by
  unfold insertLog
  split
  · rename_i hnil
    subst hnil
    exact ⟨rfl, h, fun _ hr => (by cases hr)⟩
  · by_cases htaken : rows.any fun r => ((s.view ws).groupLog.get (g, r.1)).isSome
    · simpa [wlp, run, htaken] using hR
    · set new := rows.map fun r => Write.log g r.1 (some r.2) with hnew
      have hview : s.view (ws ++ new) = applyAll new (s.view ws) := applyAll_append ws new s.db
      suffices hpost : Posted g db₀ (s.view (ws ++ new)) ∧
          ∀ r ∈ rows, (s.view (ws ++ new)).groupLog.get (g, r.1) = some r.2 by
        simpa [wlp, run, htaken] using hpost
      rw [hview]
      constructor
      · refine (applyAll_inv (P := fun d => Posted g db₀ d ∧ d.head g = (s.view ws).head g)
          ⟨h, rfl⟩ fun w hw d hd => ?_).1
        obtain ⟨r, hr, rfl⟩ := mem_map.mp hw
        obtain ⟨hlt, hle⟩ := hseqs r hr
        exact ⟨hd.1.log hok hlt (hle.trans hd.2.ge), hd.2⟩
      · intro r hr
        have hmem := sets_groupLog.get_applyAll_of_mem (k := (g, r.1)) (v := some r.2)
          (mem_map.mpr ⟨r, hr, rfl⟩ : Write.log g r.1 (some r.2) ∈ new) (s.view ws)
        obtain ⟨r', hr', heq⟩ := mem_map.mp hmem
        injection heq with _ hseq hrow
        obtain rfl : r' = r := inj_on_of_nodup_map hnodup hr' hr hseq
        exact hrow.symm

theorem wlp_insertGroupMessages {rows : List QueuedRow} (h : Posted g db₀ (s.view ws)) :
    (insertGroupMessages rows).wlp R (fun _ ws' s' => s'.db = s.db ∧ Posted g db₀ (s'.view ws') ∧
      (s'.view ws').groupLog = (s.view ws).groupLog) ws s := by
  unfold insertGroupMessages
  split
  · exact ⟨rfl, h, rfl⟩
  · refine ⟨rfl, ?_⟩
    have hall := queuedFrom_all (W := fun w => ∃ id row, w = .queued .group id row)
      (fun id row => ⟨id, some row, rfl⟩) rows s.ext.nextGroupId
    change Posted g db₀ (s.view (ws ++ queuedFrom .group s.ext.nextGroupId rows)) ∧
      (s.view (ws ++ queuedFrom .group s.ext.nextGroupId rows)).groupLog = _
    rw [Shared.view, applyAll_append]
    refine applyAll_inv (P := fun d => Posted g db₀ d ∧ d.groupLog = (s.view ws).groupLog)
      ⟨h, rfl⟩ fun w hw d hd => ?_
    obtain ⟨id, row, rfl⟩ := hall w hw
    exact ⟨hd.1.queued _ _ _, hd.2⟩

/-! ### The two posts -/

/-- The post has put a row into the log of room `g` that account `u` is served. -/
def Arrived (g : GroupId) (u : Uin) (db db' : Db) : Prop :=
  ∃ seq row, db.groupLog.get (g, seq) = none ∧ db'.groupLog.get (g, seq) = some row ∧ Visible row u

theorem Arrived.of_row (hok : MarksOk db) {seq : ℤ} {row : LogRow} (hlt : db.head g < seq)
    (hrow : db'.groupLog.get (g, seq) = some row) (hvisible : Visible row u) :
    Arrived g u db db' := by
  refine ⟨seq, row, ?_, hrow, hvisible⟩
  cases hold : db.groupLog.get (g, seq) with
  | none => rfl
  | some old => exact absurd (hok.rows g seq old hold) (not_le.mpr hlt)

private theorem zip_keys_nodup {seqs : List ℤ} {entries : List GroupPayload}
    {f : ℤ × GroupPayload → LogRow} (hlength : seqs.length ≤ entries.length) (hnodup : seqs.Nodup) :
    (((seqs.zip entries).map fun r => (r.1, f r)).map Prod.fst).Nodup := by
  have hkeys : ((seqs.zip entries).map fun r => (r.1, f r)).map Prod.fst =
      (seqs.zip entries).map Prod.fst := by simp
  rwa [hkeys, map_fst_zip hlength]

theorem wlp_logBroadcast {readers : List Uin} {row : LogRow} (hR : R s) (hok : MarksOk db₀)
    (h : Posted g db₀ (s.view ws)) :
    (logBroadcast g readers row).wlp R (fun _ ws' s' => s' = s ∧ Posted g db₀ (s.view ws') ∧
      (readers ≠ [] → ∃ q, db₀.head g < q ∧ (s.view ws').groupLog.get (g, q) = some row)) ws s := by
  unfold logBroadcast
  split
  · rename_i hnil
    exact ⟨rfl, h, fun hne => absurd hnil hne⟩
  · refine wlp_seq (wlp_nextGroupSeq h) ?_
    rintro q ws' s' ⟨rfl, hposted, hlt, hle⟩
    refine wlp_seq (wlp_insertLog hR hok hposted (by simp) (by simp [hlt, hle])) ?_
    rintro - ws'' s'' ⟨rfl, hposted', hlogged⟩
    exact ⟨rfl, hposted', fun _ => ⟨q, hlt, hlogged (q, row) (by simp)⟩⟩

/-- The accounts that a request posts to. -/
def recipientsOf (db : Db) : Request → List Uin
  | .sendGroupSealed body _ _ =>
    (body.payloads.filter fun e => e.toUin ∈ (db.memberRows body.groupId).map Prod.fst).map
      GroupPayload.toUin
  | .sendGroupBroadcast body _ _ => (db.capableRows body.groupId).map Prod.fst
  | _ => []

/-- The end of both posts: the legacy rows and the commit. -/
private theorem wlp_finishPost {α : Type} {rows : List QueuedRow} {a : α} {readers : List Uin}
    (hposted : Posted g db₀ (s.view ws)) (h : ∀ v ∈ readers, Arrived g v db₀ (s.view ws)) :
    ((insertGroupMessages rows).bind fun _ => (commitOnly .commit : Handler Unit).bind
      fun _ => (.ret a : Handler α)).wlp R (fun _ _ s' => Posted g db₀ s'.db ∧
        ∀ v ∈ readers, Arrived g v db₀ s'.db) ws s := by
  refine wlp_seq (wlp_insertGroupMessages hposted) ?_
  rintro - ws' s' ⟨-, hposted', hlog⟩
  refine ⟨hposted', fun v hv => ?_⟩
  obtain ⟨seq, row, hnone, hsome, hvisible⟩ := h v hv
  exact ⟨seq, row, hnone, hlog ▸ hsome, hvisible⟩

theorem wlp_sendGroupSealed (cfg : Config) (body : GroupSealedSendIn) (caller : Option Uin)
    (env : PostEnv) (hok : MarksOk s.db) :
    (sendGroupSealed cfg body caller env).wlp (fun s' => s'.db = s.db)
      (fun _ _ s' => Posted body.groupId s.db s'.db ∧
        ∀ v ∈ readersAmong s.db (recipientsOf s.db (.sendGroupSealed body caller env)),
          Arrived body.groupId v s.db s'.db) [] s := by
  unfold sendGroupSealed
  refine wlp_bind.mpr (wlp_onlyIf_refuse rfl ?_)
  refine wlp_read_bind ?_
  refine wlp_raiseIf_bind (fun _ => rfl) fun _ => ?_
  refine wlp_read_bind ?_
  refine wlp_raiseIf_bind (fun _ => rfl) fun _ => ?_
  refine wlp_read_bind ?_
  refine wlp_bind.mpr (wlp_refuse rfl ?_)
  refine wlp_read_bind ?_
  refine wlp_bind.mpr (wlp_refuse rfl ?_)
  refine wlp_bind.mpr (wlp_effect.mpr ?_)
  simp only [Shared.tell_same, Shared.view_nil]
  refine wlp_bind.mpr (wlp_logReaders ?_)
  set entries := body.payloads.filter fun e => e.toUin ∈ (s.db.memberRows body.groupId).map Prod.fst
    with hentries
  set readers := readersAmong s.db (entries.map GroupPayload.toUin) with hreaders
  set addressed := entries.filter fun e => e.toUin ∈ readers with haddressed
  refine wlp_seq (wlp_nextGroupSeqs (.refl s.db)) ?_
  rintro seqs ws s' ⟨rfl, hposted, hcount, hnodup, hseqs⟩
  have hlength : seqs.length = addressed.length := hcount
  refine wlp_seq (wlp_insertLog rfl hok hposted (zip_keys_nodup hlength.le hnodup) ?_) ?_
  · intro r hr
    obtain ⟨p, hp, rfl⟩ := mem_map.mp hr
    exact hseqs p.1 (of_mem_zip hp).1
  rintro - ws' s'' ⟨rfl, hposted', hlogged⟩
  refine wlp_finishPost hposted' fun v hv => ?_
  -- the entry for the account has a sequence of its own, and its row is in the log
  obtain ⟨e, he, rfl⟩ : ∃ e ∈ entries, e.toUin = v :=
    mem_map.mp (mem_filter.mp (mem_filter.mp hv).1).1
  have haddr : e ∈ (seqs.zip addressed).map Prod.snd := by
    rw [map_snd_zip hlength.ge]
    exact mem_filter.mpr ⟨he, decide_eq_true hv⟩
  obtain ⟨p, hp, rfl⟩ := mem_map.mp haddr
  refine Arrived.of_row hok (hseqs p.1 (of_mem_zip hp).1).1
    (hlogged _ (mem_map.mpr ⟨p, hp, rfl⟩)) ?_
  simp [Visible]

theorem wlp_sendGroupBroadcast (cfg : Config) (body : GroupBroadcastIn) (caller : Option Uin)
    (env : PostEnv) (hok : MarksOk s.db) :
    (sendGroupBroadcast cfg body caller env).wlp (fun s' => s'.db = s.db)
      (fun _ _ s' => Posted body.groupId s.db s'.db ∧
        ∀ v ∈ readersAmong s.db (recipientsOf s.db (.sendGroupBroadcast body caller env)),
          Arrived body.groupId v s.db s'.db) [] s := by
  unfold sendGroupBroadcast
  cases caller with
  | none => exact rfl
  | some caller =>
    refine wlp_read_bind ?_
    cases (s.view ([] : List Write)).groups.get body.groupId with
    | none => exact rfl
    | some room =>
      refine wlp_read_bind ?_
      refine wlp_raiseIf_bind (fun _ => rfl) fun _ => ?_
      refine wlp_raiseIf_bind (fun _ => rfl) fun _ => ?_
      refine wlp_bind.mpr (wlp_refuse rfl ?_)
      refine wlp_read_bind ?_
      refine wlp_raiseIf_bind (fun _ => rfl) fun _ => ?_
      refine wlp_bind.mpr (wlp_refuse rfl ?_)
      refine wlp_read_bind ?_
      refine wlp_bind.mpr (wlp_logReaders ?_)
      refine wlp_seq (wlp_logBroadcast rfl hok (.refl s.db)) ?_
      rintro seq ws s' ⟨rfl, hposted, hlogged⟩
      refine wlp_bind.mpr (wlp_effect.mpr ?_)
      refine wlp_finishPost hposted fun v hv => ?_
      obtain ⟨q, hlt, hrow⟩ := hlogged (ne_nil_of_mem hv)
      exact Arrived.of_row hok hlt hrow rfl

end Posted

/-! ## Joins -/

section Joins

variable {g : GroupId} {R : State → Prop}

/-- The invariant in the middle of a join: installs of the new member are not seated yet. -/
structure Joining (g : GroupId) (u : Uin) (devices : List DeviceId) (db : Db) : Prop where
  seated : ∀ g' u' D', (db.groupLogReaders.get (u', D')).isSome →
    (db.members.get (g', u')).isSome →
    (db.groupLogCursors.get (g', u', D')).isSome ∨ g' = g ∧ u' = u ∧ D' ∈ devices
  cursors : ∀ g u D c, db.groupLogCursors.get (g, u, D) = some c → c.lastSeq ≤ db.head g
  head : ∀ g, 0 ≤ db.head g
  rows : ∀ g seq row, db.groupLog.get (g, seq) = some row → seq ≤ db.head g

theorem Joining.marksOk (h : Joining g u [] db) : MarksOk db :=
  { h with
    seated := fun g' u' D' hmark hmember =>
      (h.seated g' u' D' hmark hmember).resolve_right fun hout => (by cases hout.2.2) }

theorem mem_readersOf : D ∈ db.readersOf u ↔ (db.groupLogReaders.get (u, D)).isSome := by
  simp only [Db.readersOf, mem_map, Prod.exists, mem_select, beq_iff_eq,
    Option.isSome_iff_exists]
  constructor
  · rintro ⟨u', D', row, ⟨hget, rfl⟩, rfl⟩
    exact ⟨row, hget⟩
  · rintro ⟨row, hget⟩
    exact ⟨u, D, row, ⟨hget, rfl⟩, rfl⟩

/-- The member row of a join: every marked install of the account is still to be seated. -/
theorem MarksOk.insertMember (h : MarksOk db) :
    Joining g u (db.readersOf u) (Write.apply (.member g u (some ())) db) :=
  { h with
    seated := by
      intro g' u' D' hmark hmember
      by_cases hkey : (g', u') = (g, u)
      · cases hkey
        exact .inr ⟨rfl, rfl, mem_readersOf.mpr hmark⟩
      · have hold : (Write.apply (.member g u (some ())) db).members.get (g', u') =
            db.members.get (g', u') := get_set_ne _ hkey _
        rw [hold] at hmember
        exact .inl (h.seated g' u' D' hmark hmember) }

theorem lastSeq_upsert_le {old : Option LogCursor} {head : ℤ} {now : Time} (hhead : 0 ≤ head)
    (hold : ∀ c, old = some c → c.lastSeq ≤ head) :
    (LogCursor.upsert old 0 head now).lastSeq ≤ head := by
  cases old with
  | none => exact max_le hhead le_rfl
  | some c => exact max_le (hold c rfl) hhead

theorem Joining.seat {devices : List DeviceId} (h : Joining g u (D :: devices) db) (now : Time) :
    Joining g u devices (Write.apply (.logCursor g u D
      (some (.upsert (db.groupLogCursors.get (g, u, D)) 0 (db.head g) now))) db) where
  seated := by
    intro g' u' D' hmark hmember
    rw [get_logCursor]
    split
    · exact .inl rfl
    · rename_i hne
      refine (h.seated g' u' D' hmark hmember).imp_right ?_
      rintro ⟨rfl, rfl, hmem⟩
      refine ⟨rfl, rfl, (mem_cons.mp hmem).resolve_left ?_⟩
      rintro rfl
      exact hne rfl
  cursors := by
    intro g' u' D' c hc
    rw [get_logCursor] at hc
    split at hc
    · rename_i hkey
      cases hkey
      cases hc
      exact lastSeq_upsert_le (h.head g) fun c hc => h.cursors g u D c hc
    · exact h.cursors g' u' D' c hc
  head := h.head
  rows := h.rows

theorem wlp_seedDevices {devices : List DeviceId} {seeds : List (DeviceId × ℤ)} {head : ℤ}
    (hhead : (s.view ws).head g = head) (h : Joining g u devices (s.view ws)) :
    (seedDevices g u head devices seeds).wlp R
      (fun _ ws' s' => s' = s ∧ MarksOk (s.view ws')) ws s := by
  induction devices generalizing ws seeds with
  | nil => exact ⟨rfl, h.marksOk⟩
  | cons device rest ih =>
    refine wlp_bind.mpr (wlp_upsertLogCursor.mpr ?_)
    have hseat := h.seat s.ext.now
    rw [← view_concat, hhead] at hseat
    refine ih ?_ hseat
    rw [view_concat]
    exact hhead

theorem wlp_joinGroup {refusal : Option HttpError} (h : MarksOk s.db) :
    (joinGroup g u refusal).wlp (fun s' => MarksOk s'.db) (fun _ _ s' => MarksOk s'.db) [] s := by
  refine wlp_read_bind ?_
  split
  · exact h
  · refine wlp_bind.mpr (wlp_refuse h ?_)
    refine wlp_bind.mpr (wlp_write.mpr ?_)
    have hjoin : Joining g u (s.db.readersOf u) (s.view [Write.member g u (some ())]) :=
      h.insertMember
    refine wlp_seq (Q := fun _ ws' s' => MarksOk (s'.view ws')) ?_ fun _ _ _ hok => hok
    refine wlp_read_bind ?_
    split
    · rename_i hnone
      have hreaders : s.db.readersOf u = [] := hnone
      rw [hreaders] at hjoin
      exact hjoin.marksOk
    · refine wlp_read_bind ?_
      refine wlp_mono (wlp_seedDevices rfl hjoin) ?_
      rintro _ ws' s' ⟨rfl, hok⟩
      exact hok

end Joins

end RcqServer.RoomLog
