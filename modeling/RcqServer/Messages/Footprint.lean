import RcqServer.Messages.Server
import RcqServer.ReadCommitted.Frame

/-!
# Footprints

Which rows each part of a handler writes, and what it does outside the transaction, whatever it
reads: one lemma for each function of the source, for arbitrary sets `W` of writes and `E` of
effects that contain its own.
-/

namespace RcqServer.Messages

open ReadCommitted Prog List

variable {W : Write → Prop} {E : Ext → Ext → Prop} (hE : ∀ e, E e e)

include hE

theorem clock_within : clock.Within W E := Within.read hE

theorem commitOnly_within : (commitOnly .commit : Handler Unit).Within W E :=
  ⟨hE, trivial⟩

omit hE in
theorem refuse_within {e : Option HttpError} : (refuse e).Within W E := by
  cases e with
  | none => exact trivial
  | some e => exact trivial

/-! ## Sequences and inserts -/

theorem nextMailboxSeq_within (uin : Uin) (hW : ∀ next, W (.mailboxSeq uin next)) :
    (nextMailboxSeq uin).Within W E :=
  Within.write_one hE fun _ _ => hW _

theorem nextGroupSeq_within (gid : GroupId) (hW : ∀ next, W (.groupSeq gid next)) :
    (nextGroupSeq gid).Within W E :=
  Within.write_one hE fun _ _ => hW _

theorem nextGroupSeqs_within (gid : GroupId) (count : ℕ) (hW : ∀ next, W (.groupSeq gid next)) :
    (nextGroupSeqs gid count).Within W E :=
  Within.ite trivial <| Within.write_one hE fun _ _ => hW _

theorem insertLog_within (gid : GroupId) (rows : List (ℤ × LogRow))
    (hW : ∀ seq row, W (.log gid seq row)) : (insertLog gid rows).Within W E := by
  refine Within.ite trivial fun v e =>
    ⟨?_, hE e, Within.ite trivial trivial⟩
  intro o ho
  beta_reduce at ho
  split at ho
  · cases ho
  · obtain ⟨r, -, rfl⟩ := mem_map.mp ho
    exact hW _ _

omit hE in
theorem queuedFrom_all {ax : Axis} (hW : ∀ id row, W (.queued ax id (some row)))
    (rows : List QueuedRow) (next : ℕ) : ∀ o ∈ queuedFrom ax next rows, W o := by
  induction rows generalizing next with
  | nil => simp [queuedFrom]
  | cons row rows ih =>
    exact forall_mem_cons.mpr ⟨hW _ _, ih (next + 1)⟩

omit hE in
theorem insertGroupMessages_within (rows : List QueuedRow)
    (hW : ∀ id row, W (.queued .group id (some row))) (hA : ∀ e n, E e (e.allocate n .group)) :
    (insertGroupMessages rows).Within W E :=
  Within.ite trivial fun _ e =>
    ⟨queuedFrom_all hW rows e.nextGroupId, hA e _, trivial⟩

/-- The end of a post: its legacy rows and the commit. -/
theorem finishPost_within {α : Type} {rows : List QueuedRow} {a : α}
    (hW : ∀ id row, W (.queued .group id (some row))) (hA : ∀ e n, E e (e.allocate n .group)) :
    ((insertGroupMessages rows).bind fun _ => (commitOnly .commit : Handler Unit).bind fun _ =>
      .ret a).Within W E :=
  (insertGroupMessages_within _ hW hA).bind fun _ => (commitOnly_within hE).bind fun _ => trivial

omit hE in
theorem insertMessage_within (row : QueuedRow) (seq : ℕ)
    (hW : ∀ id row, W (.queued .direct id (some row))) (hA : ∀ e n, E e (e.allocate n .direct)) :
    (insertMessage row seq).Within W E := by
  intro v e
  refine ⟨?_, hA e 1, Within.ite trivial trivial⟩
  intro o ho
  beta_reduce at ho
  split at ho
  · cases ho
  · obtain rfl := mem_singleton.mp ho
    exact hW _ _

theorem logReaders_within (uins : List Uin) : (logReaders uins).Within W E := by
  refine Within.ite trivial ?_
  refine (Within.read hE).bind fun hasReader => ?_
  refine Within.ite trivial ?_
  exact (Within.read hE).bind fun _ => trivial

theorem logBroadcast_within (gid : GroupId) (readers : List Uin) (row : LogRow)
    (hseq : ∀ next, W (.groupSeq gid next)) (hlog : ∀ seq row, W (.log gid seq row)) :
    (logBroadcast gid readers row).Within W E :=
  Within.ite trivial <|
    (nextGroupSeq_within hE gid hseq).bind fun _ =>
      (insertLog_within hE gid _ hlog).bind fun _ => trivial

/-! ## The offline queue -/

theorem sendSealed_within (cfg : Config) (body : SealedSendIn) (online : Bool)
    (hseq : ∀ next, W (.mailboxSeq body.toUin next))
    (hrow : ∀ id row, W (.queued .direct id (some row)))
    (hA : ∀ e n, E e (e.allocate n .direct)) : (sendSealed cfg body online).Within W E := by
  refine (Within.read hE).bind fun target => Within.raiseIf.bind fun _ => ?_
  refine Within.raiseIf.bind fun _ => Within.raiseIf.bind fun _ => ?_
  refine (clock_within hE).bind fun now => (Within.effect fun _ e => hE e).bind fun _ => ?_
  refine (nextMailboxSeq_within hE _ hseq).bind fun seq => ?_
  refine (insertMessage_within _ _ hrow hA).bind fun _ => ?_
  exact (commitOnly_within hE).bind fun _ => trivial

theorem drainFloor_within (uin : Uin) (device : DeviceId) : (drainFloor uin device).Within W E := by
  refine (Within.read hE).bind fun cursor => ?_
  cases cursor with
  | some c => exact trivial
  | none => exact (Within.read hE).bind fun _ => trivial

section Drain

variable {uin : Uin} (hcursor : ∀ device row, W (.cursor uin device row))
  (hreap : ∀ ax id, W (.queued ax id none))

include hcursor

theorem upsertCursor_within (l : Label) (device : DeviceId)
    (direct group seedDirect seedGroup : ℕ) :
    (upsertCursor l uin device direct group seedDirect seedGroup).Within W E :=
  (clock_within hE).bind fun _ => Within.write_one hE fun _ _ => hcursor _ _

theorem pinFloor_within (device : DeviceId) (floor : Floor) :
    (pinFloor uin device floor).Within W E := by
  unfold pinFloor
  cases floor.cursor with
  | some c => exact trivial
  | none =>
    refine (upsertCursor_within hE hcursor _ _ _ _ _ _).bind fun _ => ?_
    exact (commitOnly_within hE).bind fun _ => trivial

omit hcursor in
theorem seedMarks_within (device : DeviceId) (cursor : Option QueueCursor) :
    (seedMarks uin device cursor).Within W E := by
  cases cursor with
  | some c => exact trivial
  | none =>
    refine (Within.read hE).bind fun again => ?_
    cases again with
    | some c => exact trivial
    | none => exact Within.read hE

include hreap

omit hcursor in
theorem reapAxis_within (ax : Axis) (floor : ℕ) : (reapAxis ax uin floor).Within W E :=
  Within.ite (Within.write hE fun _ _ o ho => by
    obtain ⟨id, -, rfl⟩ := mem_map.mp ho
    exact hreap ax id) trivial

theorem reapBelowMin_within : (reapBelowMin uin).Within W E := by
  intro v e
  refine ⟨by simp, hE e, (clock_within hE).bind fun now =>
    Within.bind (Within.onlyIf ?_) fun _ => ?_⟩
  · refine Within.write hE fun _ _ o ho => ?_
    obtain ⟨x, hx, rfl⟩ := mem_map.mp ho
    -- the cursors that are dropped are those of the account
    have hmem := (mem_filter.mp (mem_filter.mp hx).1).1
    have huin : x.1.1 = uin := by simpa using (Table.mem_select.mp hmem).2
    rw [huin]
    exact hcursor _ _
  · refine Within.ite trivial ?_
    refine (reapAxis_within hE hreap _ _).bind fun _ => ?_
    exact (reapAxis_within hE hreap _ _).bind fun _ => trivial

theorem advanceCursor_within (device : DeviceId) (maxDirect maxGroup : ℕ)
    (cursor : Option QueueCursor) :
    (advanceCursor uin device maxDirect maxGroup cursor).Within W E :=
  (seedMarks_within hE device cursor).bind fun _ =>
    (upsertCursor_within hE hcursor _ _ _ _ _ _).bind fun _ => reapBelowMin_within hE hcursor hreap

theorem fetchQueue_within (device : DeviceId) (ack : Bool) (dev : ℕ)
    (hhand : ∀ (e : Ext) rows, E e (e.hand rows)) (hdrain : ∀ (e : Ext) rows, E e (e.drain rows)) :
    (fetchQueue uin device ack dev).Within W E := by
  refine (drainFloor_within hE uin device).bind fun floor => ?_
  refine (pinFloor_within hE hcursor device floor).bind fun after => ?_
  refine (Within.read hE).bind fun direct => (Within.read hE).bind fun group => ?_
  refine Within.bind ?_ fun _ => trivial
  cases ack with
  | true => exact Within.effect (l := .answer) fun _ e => hhand e _
  | false =>
    refine (advanceCursor_within hE hcursor hreap _ _ _ _).bind fun _ => ?_
    exact ⟨fun e => hdrain e _, trivial⟩

theorem ackQueue_within (device : DeviceId) (body : AckIn) (dev : ℕ)
    (hack : ∀ (e : Ext) rows, E e (e.ack rows)) : (ackQueue uin device body dev).Within W E := by
  have hacked : ∀ ax base acked dev', (ackedPrefix ax uin base acked dev').Within W E :=
    fun ax base acked dev' => Within.ite trivial <| Within.read hE
  refine (drainFloor_within hE uin device).bind fun floor => ?_
  refine (hacked _ _ _ _).bind fun direct => (hacked _ _ _ _).bind fun group => ?_
  refine (advanceCursor_within hE hcursor hreap _ _ _ _).bind fun reaped => ?_
  exact ⟨fun e => hack e _, trivial⟩

end Drain

/-! ## Posts to rooms -/

section Post

variable (hseq : ∀ gid next, W (.groupSeq gid next)) (hlog : ∀ gid seq row, W (.log gid seq row))
  (hrow : ∀ id row, W (.queued .group id (some row))) (hA : ∀ e n, E e (e.allocate n .group))

include hseq hlog hrow hA

theorem sendGroupSealed_within (cfg : Config) (body : GroupSealedSendIn) (caller : Option Uin)
    (env : PostEnv) : (sendGroupSealed cfg body caller env).Within W E := by
  refine refuse_within.onlyIf.bind fun _ => (Within.read hE).bind fun g => ?_
  refine Within.raiseIf.bind fun _ => (Within.read hE).bind fun memberRows => ?_
  refine Within.raiseIf.bind fun _ => (clock_within hE).bind fun recent => ?_
  refine refuse_within.bind fun _ => (clock_within hE).bind fun now => ?_
  refine refuse_within.bind fun _ => (Within.effect fun _ e => hE e).bind fun _ => ?_
  refine (logReaders_within hE _).bind fun readers => ?_
  refine (nextGroupSeqs_within hE _ _ (hseq _)).bind fun seqs => ?_
  exact (insertLog_within hE _ _ (hlog _)).bind fun _ => finishPost_within hE hrow hA

theorem sendGroupBroadcast_within (cfg : Config) (body : GroupBroadcastIn) (caller : Option Uin)
    (env : PostEnv) (hpublish : ∀ (e : Ext) recipients gid seq payload,
      E e (e.publish recipients env gid seq payload)) :
    (sendGroupBroadcast cfg body caller env).Within W E := by
  cases caller with
  | none => exact trivial
  | some caller =>
    refine (Within.read hE).bind fun g => ?_
    cases g with
    | none => exact trivial
    | some g =>
      refine (Within.read hE).bind fun seat => Within.raiseIf.bind fun _ => ?_
      refine Within.raiseIf.bind fun _ => refuse_within.bind fun _ => ?_
      refine (Within.read hE).bind fun recipientRows => ?_
      refine Within.raiseIf.bind fun _ => refuse_within.bind fun _ => ?_
      refine (clock_within hE).bind fun now => (logReaders_within hE _).bind fun readers => ?_
      refine (logBroadcast_within hE _ _ _ (hseq _) (hlog _)).bind fun seq => ?_
      refine Within.bind (Within.effect fun _ e => ?_) fun _ => ?_
      · cases seq with
        | none => exact hE e
        | some seq => exact hpublish e _ _ _ _
      exact finishPost_within hE hrow hA

end Post

/-! ## What a post does before it writes -/

section Prefix

open Outline

variable {ρ : Type} {O : Outline Db Ext Write Label ρ} {r : ρ} {A : List Write → State → Prop}
  {Q : SendOut → List Write → State → Prop} {ws : List Write} {s : State}

/-- Up to its sequences, a post to each member only reads. -/
theorem wp_sendGroupSealed_of (hA : O.Framed r W E A) (h : A ws s) (cfg : Config)
    (body : GroupSealedSendIn) (caller : Option Uin) (env : PostEnv)
    (htail : ∀ ws s (addressed : List GroupPayload) now legacy out, A ws s →
      O.wp r ((nextGroupSeqs body.groupId addressed.length).bind fun seqs =>
        (insertLog body.groupId ((seqs.zip addressed).map fun x => (x.1,
          ⟨some x.2.toUin, body.envelopeType, clsFor body.envelopeType, x.2.payload, now⟩))).bind
        fun _ => (insertGroupMessages legacy).bind fun _ =>
          (commitOnly .commit : Handler Unit).bind fun _ => .ret out) Q ws s) :
    O.wp r (sendGroupSealed cfg body caller env) Q ws s := by
  refine wp_within_bind hA refuse_within.onlyIf h fun _ ws s h => ?_
  refine wp_within_bind hA (.read hE) h fun g ws s h => ?_
  refine wp_within_bind hA .raiseIf h fun _ ws s h => ?_
  refine wp_within_bind hA (.read hE) h fun memberRows ws s h => ?_
  refine wp_within_bind hA .raiseIf h fun _ ws s h => ?_
  refine wp_within_bind hA (clock_within hE) h fun recent ws s h => ?_
  refine wp_within_bind hA refuse_within h fun _ ws s h => ?_
  refine wp_within_bind hA (clock_within hE) h fun now ws s h => ?_
  refine wp_within_bind hA refuse_within h fun _ ws s h => ?_
  refine wp_within_bind hA (.effect fun _ e => hE e) h fun _ ws s h => ?_
  refine wp_within_bind hA (logReaders_within hE _) h fun readers ws s h => ?_
  exact htail _ _ _ _ _ _ h

/-- Up to its sequence, a post to the room only reads. -/
theorem wp_sendGroupBroadcast_of (hA : O.Framed r W E A) (h : A ws s) (cfg : Config)
    (body : GroupBroadcastIn) (caller : Option Uin) (env : PostEnv)
    (htail : ∀ ws s readers row recipients legacy out, A ws s → row.payload = body.payload →
      O.wp r ((logBroadcast body.groupId readers row).bind fun seq =>
        (publishBroadcast recipients env body.groupId seq body.payload).bind fun _ =>
          (insertGroupMessages legacy).bind fun _ =>
            (commitOnly .commit : Handler Unit).bind fun _ => .ret out) Q ws s) :
    O.wp r (sendGroupBroadcast cfg body caller env) Q ws s := by
  cases caller with
  | none => exact trivial
  | some caller =>
    refine wp_within_bind hA (.read hE) h fun g ws s h => ?_
    cases g with
    | none => exact trivial
    | some g =>
      refine wp_within_bind hA (.read hE) h fun seat ws s h => ?_
      refine wp_within_bind hA .raiseIf h fun _ ws s h => ?_
      refine wp_within_bind hA .raiseIf h fun _ ws s h => ?_
      refine wp_within_bind hA refuse_within h fun _ ws s h => ?_
      refine wp_within_bind hA (.read hE) h fun recipientRows ws s h => ?_
      refine wp_within_bind hA .raiseIf h fun _ ws s h => ?_
      refine wp_within_bind hA refuse_within h fun _ ws s h => ?_
      refine wp_within_bind hA (clock_within hE) h fun now ws s h => ?_
      refine wp_within_bind hA (logReaders_within hE _) h fun readers ws s h => ?_
      exact htail _ _ _ _ _ _ _ h rfl

end Prefix

/-! ## Room-log reads -/

theorem upsertLogCursor_within (gid : GroupId) (uin : Uin) (device : DeviceId) (seq seed : ℤ)
    (hW : ∀ row, W (.logCursor gid uin device row)) :
    (upsertLogCursor gid uin device seq seed).Within W E :=
  (clock_within hE).bind fun _ => Within.write_one hE fun _ _ => hW _

theorem markReader_within (uin : Uin) (device : DeviceId)
    (hW : ∀ row, W (.reader uin device row)) : (markReader uin device).Within W E :=
  (clock_within hE).bind fun _ => Within.write_one hE fun _ _ => hW _

theorem load_within (uin : Uin) (chunk : ℕ) (room : Room) : (room.load uin chunk).Within W E :=
  Within.ite ((Within.read hE).bind fun _ => trivial) trivial

theorem pageLoop_within (uin : Uin) (chunk fuel : ℕ) (page : Page) :
    (pageLoop uin chunk fuel page).Within W E := by
  induction fuel generalizing page with
  | zero => exact trivial
  | succ fuel ih =>
    refine Within.ite trivial ?_
    split
    · exact trivial
    · split
      · exact trivial
      · exact (load_within hE uin chunk _).bind fun room => ih _

theorem fairLogPage_within (uin : Uin) (starts : List (GroupId × ℤ)) (limit : ℕ) :
    (fairLogPage uin starts limit).Within W E :=
  Within.ite trivial <|
    (pageLoop_within hE uin _ _ _).bind fun _ => trivial

theorem scanRooms_within (uin : Uin) (device : DeviceId)
    (hW : ∀ gid row, W (.logCursor gid uin device row)) (wanted : List (GroupId × Option ℤ))
    (scan : RoomScan) : (scanRooms uin device wanted scan).Within W E := by
  induction wanted generalizing scan with
  | nil => exact trivial
  | cons room rest ih =>
    obtain ⟨gid, after⟩ := room
    refine Within.bind ?_ fun scan => ih scan
    refine (Within.read hE).bind fun head => Within.bind ?_ fun _ => trivial
    cases scan.cursors.lookup gid with
    | some pos => exact trivial
    | none => exact upsertLogCursor_within hE gid uin device 0 head (hW gid)

theorem fetchGroupLog_within (uin : Uin) (device : DeviceId) (body : GroupLogFetchIn)
    (hcursor : ∀ gid row, W (.logCursor gid uin device row))
    (hreader : ∀ row, W (.reader uin device row))
    (hhand : ∀ e rows seeds, E e (e.handLog uin device rows seeds)) :
    (fetchGroupLog uin device body).Within W E := by
  refine (Within.read hE).bind fun memberOf => (Within.read hE).bind fun cursors => ?_
  refine (scanRooms_within hE uin device hcursor _ _).bind fun scan => ?_
  refine (fairLogPage_within hE uin _ _).bind fun page => ?_
  refine (markReader_within hE uin device hreader).onlyIf.bind fun _ => ?_
  exact ⟨fun e => hhand e _ _, trivial⟩

theorem ackRooms_within (uin : Uin) (device : DeviceId)
    (hW : ∀ gid row, W (.logCursor gid uin device row)) (rooms known : List (GroupId × ℤ))
    (moved : ℕ) : (ackRooms uin device rooms known moved).Within W E := by
  induction rooms generalizing known moved with
  | nil => exact trivial
  | cons room rest ih =>
    obtain ⟨gid, upto⟩ := room
    refine Within.ite (ih _ _) ?_
    exact (upsertLogCursor_within hE gid uin device upto upto (hW gid)).bind fun _ => ih _ _

theorem ackGroupLog_within (uin : Uin) (device : DeviceId) (rooms : List (GroupId × ℤ))
    (hcursor : ∀ gid row, W (.logCursor gid uin device row))
    (hreader : ∀ row, W (.reader uin device row)) : (ackGroupLog uin device rooms).Within W E := by
  refine (Within.read hE).bind fun known => ?_
  refine (ackRooms_within hE uin device hcursor _ _ _).bind fun moved => ?_
  refine (markReader_within hE uin device hreader).onlyIf.bind fun _ => ?_
  exact (commitOnly_within hE).bind fun _ => trivial

/-! ## Joins and heartbeats -/

theorem seedDevices_within (gid : GroupId) (uin : Uin) (head : ℤ)
    (hW : ∀ device row, W (.logCursor gid uin device row)) (devices : List DeviceId)
    (seeds : List (DeviceId × ℤ)) : (seedDevices gid uin head devices seeds).Within W E := by
  induction devices generalizing seeds with
  | nil => exact trivial
  | cons device rest ih =>
    exact (upsertLogCursor_within hE gid uin device 0 head (hW device)).bind fun _ => ih _

theorem joinGroup_within (gid : GroupId) (uin : Uin) (refusal : Option HttpError)
    (hmember : W (.member gid uin (some ())))
    (hcursor : ∀ device row, W (.logCursor gid uin device row))
    (hseed : ∀ (e : Ext) seeds, E e { e with seeded := seeds ++ e.seeded }) :
    (joinGroup gid uin refusal).Within W E := by
  refine (Within.read hE).bind fun seat => Within.ite trivial ?_
  refine refuse_within.bind fun _ => Within.bind (Within.write hE ?_) fun _ => ?_
  · exact fun _ _ => forall_mem_singleton.mpr hmember
  · refine Within.bind ?_ fun seeds => ⟨fun e => hseed e _, trivial⟩
    refine (Within.read hE).bind fun devices => Within.ite trivial ?_
    exact (Within.read hE).bind fun head =>
      seedDevices_within hE gid uin head hcursor devices []

theorem touchUser_within (uin : Uin) (hW : ∀ row, W (.user uin row)) :
    (touchUser uin).Within W E := by
  refine (clock_within hE).bind fun now => Within.bind (Within.write hE ?_) fun _ =>
    commitOnly_within hE
  intro v _ o ho
  cases huser : v.users.get uin with
  | none => simp [huser] at ho
  | some row =>
    simp only [huser, Option.map_some, Option.toList_some, mem_singleton] at ho
    subst ho
    exact hW _

attribute [simp] clock_within commitOnly_within refuse_within nextGroupSeqs_within
  insertLog_within logBroadcast_within sendSealed_within fetchQueue_within ackQueue_within
  sendGroupSealed_within sendGroupBroadcast_within fetchGroupLog_within ackGroupLog_within
  joinGroup_within touchUser_within

end RcqServer.Messages
