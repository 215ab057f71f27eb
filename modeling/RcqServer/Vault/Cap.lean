import RcqServer.Vault.Slots
import RcqServer.ReadCommitted.Serial

/-!
# The cap on live slots

A slot becomes live when it is created, and again when it is written on top of its tombstone.  Only
the first of the two asks how many slots are live.
-/

namespace RcqServer.Vault

open ReadCommitted Prog Option Shared Table List Finset

/-- The number of live slots of an account. -/
def Db.liveCount (db : Db) (uin : Uin) : ℕ := (db.liveSlots uin).length

/-- The slot is live. -/
def Db.live (db : Db) (key : SlotKey) : Bool := (db.vaultSlots.get key).any (·.blob.isSome)

/-! ## Counting -/

theorem liveCount_eq_card (db : Db) (uin : Uin) : db.liveCount uin =
      (db.vaultSlots.keysWhere fun key row => key.1 == uin && row.blob.isSome).card := by
  rw [Table.keysWhere, toFinset_card_of_nodup (select_keys_nodup _ _), length_map]
  rfl

variable {key : SlotKey} {uin : Uin}

theorem mem_live {db : Db} :
    key ∈ (db.vaultSlots.keysWhere fun key row => key.1 == uin && row.blob.isSome) ↔
      key.1 = uin ∧ db.live key := by
  rw [mem_keysWhere, Db.live]
  cases db.vaultSlots.get key with
  | none => simp
  | some row => simp

/-- A write of one row makes at most that slot live. -/
theorem liveCount_set_le (db : Db) (key : SlotKey) (row : VaultSlot) (uin : Uin) :
    (⟨db.vaultSlots.set key (some row)⟩ : Db).liveCount uin ≤ db.liveCount uin + 1 := by
  let live (db : Db) := db.vaultSlots.keysWhere fun key row => key.1 == uin && row.blob.isSome
  have hsub : live ⟨db.vaultSlots.set key (some row)⟩ ⊆ insert key (live db) := by
    intro k hk
    have hk := mem_live.mp hk
    by_cases hkey : k = key
    · exact hkey ▸ mem_insert_self _ _
    · refine mem_insert_of_mem (mem_live.mpr ⟨hk.1, ?_⟩)
      rw [Db.live, ← get_set_ne db.vaultSlots hkey (some row)]
      exact hk.2
  calc (⟨db.vaultSlots.set key (some row)⟩ : Db).liveCount uin
      = (live ⟨db.vaultSlots.set key (some row)⟩).card := liveCount_eq_card _ _
    _ ≤ (insert key (live db)).card := card_le_card hsub
    _ ≤ (live db).card + 1 := card_insert_le _ _
    _ = db.liveCount uin + 1 := by rw [liveCount_eq_card]

/-- A write that makes no slot live that was not so before. -/
theorem liveCount_set_of_live (db : Db) (key : SlotKey) (row : VaultSlot) (uin : Uin)
    (h : key.1 = uin → row.blob.isSome → db.live key) :
    (⟨db.vaultSlots.set key (some row)⟩ : Db).liveCount uin ≤ db.liveCount uin := by
  rw [liveCount_eq_card, liveCount_eq_card]
  refine card_le_card fun k hk => ?_
  rw [mem_live, Db.live] at hk
  refine mem_live.mpr ⟨hk.1, ?_⟩
  by_cases hkey : k = key
  · subst hkey
    obtain ⟨hk, hlive⟩ := hk
    rw [get_set_self] at hlive
    exact h hk hlive
  · rw [Db.live, ← get_set_ne db.vaultSlots hkey (some row)]
    exact hk.2

/-! ## What a request does to the slots -/

/-- What a request that is served alone may do. -/
inductive Served : Request → Db → Db → Prop
  | nothing (r : Request) (db : Db) : Served r db db
  | create {key : SlotKey} {body : VaultPutIn} {budget : ℕ} {db : Db} {row : VaultSlot}
      (hcount : db.liveCount key.1 < maxSlots) :
      Served (.putSlot key body budget) db ⟨db.vaultSlots.set key (some row)⟩
  | rewrite {key : SlotKey} {body : VaultPutIn} {budget : ℕ} {db : Db} {old row : VaultSlot}
      (hpos : body.version ≠ 0) (hold : db.vaultSlots.get key = some old)
      (hversion : old.version = body.version) :
      Served (.putSlot key body budget) db ⟨db.vaultSlots.set key (some row)⟩
  | delete {key : SlotKey} {version next : ℕ} {h₁ : 1 ≤ version} {h₂ : version ≤ maxVersion}
      {db : Db} :
      Served (.deleteSlot key version h₁ h₂) db ⟨db.vaultSlots.set key (some ⟨none, next⟩)⟩

variable {r : Request} {s : State} {db : Db}

theorem createSlot_served {body : VaultPutIn} {budget : ℕ} {blob : Blob} (h : s.db = db) :
    (createSlot key blob).wlp (fun s => s.db = db)
      (fun _ _ s => Served (.putSlot key body budget) db s.db) [] s := by
  refine wlp_read_bind ?_
  rw [view_nil, h]
  split
  · exact wlp_read_bind (wlp_raiseIf_bind (fun _ => h) fun _ => h)
  · rename_i hcount
    cases hget : db.vaultSlots.get key with
    | some old =>
      simp [wlp, insertSlot, Prog.bind, run, refuseStale, currentVersion, Prog.read, h, hget]
    | none =>
      simp only [wlp, insertSlot, commitSlot, Prog.bind, run, bind_eq, pure_eq, view_nil,
        tell_same, h, hget, isSome_none, Bool.false_eq_true, if_false,
        getD_none, commit_db, nil_append]
      rw [Shared.view, h]
      exact .create (Nat.lt_of_not_le hcount)

theorem rewriteSlot_served {body : VaultPutIn} {budget : ℕ} {blob : Blob}
    (hpos : body.version ≠ 0) (h : s.db = db) :
    (rewriteSlot key blob body.version).wlp (fun s => s.db = db)
      (fun _ _ s => Served (.putSlot key body budget) db s.db) [] s := by
  refine wlp_bind.mpr (wlp_write.mpr ?_)
  rw [view_nil, h]
  cases hget : db.vaultSlots.get key with
  | none => exact h
  | some old =>
    by_cases hversion : old.version = body.version
    · simp only [any_some, hversion, beq_self_eq_true, if_true]
      change Served (.putSlot key body budget) db
        ⟨s.db.vaultSlots.set key (some ⟨some blob, body.version + 1⟩)⟩
      rw [h]
      exact .rewrite hpos hget hversion
    · have hne : (old.version == body.version) = false := beq_eq_false_iff_ne.mpr hversion
      simp only [any_some, hne, Bool.false_eq_true, if_false]
      exact h

theorem deleteSlot_served {version : ℕ} {h₁ : 1 ≤ version}
    {h₂ : version ≤ maxVersion} (h : s.db = db) : (deleteSlot key version).wlp (fun s => s.db = db)
      (fun _ _ s => Served (.deleteSlot key version h₁ h₂) db s.db) [] s := by
  refine wlp_read_bind ?_
  rw [view_nil, h]
  split
  · exact h ▸ .nothing _ _
  · refine wlp_bind.mpr (wlp_write.mpr ?_)
    rw [view_nil, h]
    split
    · change Served (.deleteSlot key version h₁ h₂) db
        ⟨s.db.vaultSlots.set key (some ⟨none, version + 1⟩)⟩
      rw [h]
      exact .delete
    · exact h

theorem served (r : Request) (s : State) : Served r s.db ((handler r).exec s).2.db := by
  have hdone : ∀ {α : Type} {p : Handler α} (f : α → Answer),
      p.wlp (fun s' => s'.db = s.db) (fun _ _ s' => Served r s.db s'.db) [] s →
      Served r s.db ((p.bind fun a => .ret (f a)).exec s).2.db := by
    intro α p f hp
    refine exec_inv (P := fun s' => Served r s.db s'.db) (wlp_seq (Q := fun _ _ s' =>
      Served r s.db s'.db) (wlp_weaken hp (fun s' hs' => ?_) fun _ _ _ => id) fun _ _ _ => id)
    rw [hs']
    exact .nothing r s.db
  cases r with
  | putSlot key body budget =>
    refine hdone _ ?_
    unfold putSlot
    split
    · exact rfl
    · refine wlp_raiseIf_bind (fun _ => rfl) fun _ => ?_
      split
      · exact createSlot_served rfl
      · exact rewriteSlot_served ‹_› rfl
  | deleteSlot key version h₁ h₂ => exact hdone (fun _ => .noContent) (deleteSlot_served rfl)
  | getSlot key =>
    refine hdone _ (wlp_read_bind ?_)
    split
    · exact wlp_raiseIf_bind (fun _ => rfl) fun _ => .nothing _ _
    · exact rfl
  | listSlots uin => exact hdone _ (wlp_read.mpr (.nothing _ _))

/-! ## Histories -/

/-- The request writes on top of a tombstone of the account. -/
def Request.revives (uin : Uin) (db : Db) : Request → Bool
  | .putSlot key body _ => key.1 == uin && body.version != 0 &&
      (db.vaultSlots.get key).any fun row => row.version == body.version && row.blob.isNone
  | _ => false

/-- A tombstone is written over only while the account has less than its slots. -/
def RevivesUnderCap (uin : Uin) (s : State) (r : Request) : Prop :=
  r.revives uin s.db → s.db.liveCount uin < maxSlots

instance (uin : Uin) (s : State) (r : Request) : Decidable (RevivesUnderCap uin s r) :=
  inferInstanceAs (Decidable (_ → _))

theorem liveCount_served {db' : Db} (hserved : Served r db db') (hcap : db.liveCount uin ≤ maxSlots)
    (hrevives : r.revives uin db → db.liveCount uin < maxSlots) : db'.liveCount uin ≤ maxSlots := by
  cases hserved with
  | nothing => exact hcap
  | @delete key _ next =>
    refine (liveCount_set_of_live db key ⟨none, next⟩ uin fun _ hlive => ?_).trans hcap
    exact absurd hlive Bool.false_ne_true
  | @create key body budget _ row hcount =>
    by_cases huin : key.1 = uin
    · subst huin
      exact (liveCount_set_le db key row key.1).trans hcount
    · exact (liveCount_set_of_live db key row uin fun h => absurd h huin).trans hcap
  | @rewrite key body budget _ old row hpos hold hversion =>
    by_cases hnew : key.1 = uin ∧ old.blob = none
    · -- a tombstone comes back
      have hrevived : (Request.putSlot key body budget).revives uin db := by
        simp [Request.revives, hnew.1, hnew.2, hold, hversion, hpos]
      exact (liveCount_set_le db key row uin).trans (hrevives hrevived)
    · refine (liveCount_set_of_live db key row uin fun huin _ => ?_).trans hcap
      rw [Db.live, hold, any_some]
      exact isSome_iff_ne_none.mpr fun hnone => hnew ⟨huin, hnone⟩

/-- **The cap holds.**  After every history of requests, served one after the other, in which
tombstones are written over only under the cap, an account has at most `MAX_SLOTS` live slots. -/
theorem live_slots_capped {s s' : State} (hs : s.db.liveCount uin ≤ maxSlots)
    (hrun : Serial handler (RevivesUnderCap uin) s s') : s'.db.liveCount uin ≤ maxSlots :=
  hrun.inv (P := fun s => s.db.liveCount uin ≤ maxSlots) hs fun s r hcap hok =>
    liveCount_served (served r s) hcap hok

/-- One of 256 slots of account 1. -/
def slotAt (i j : Fin 16) : SlotKey :=
  let digit (k : Fin 16) : Char := "0123456789abcdef".toList.getD k '0'
  have hdigit : ∀ k : Fin 16, ('0' ≤ digit k ∧ digit k ≤ '9') ∨ ('a' ≤ digit k ∧ digit k ≤ 'f') := by
    decide
  (1, ⟨digit i :: digit j :: replicate 30 '0', rfl, by
    intro c hc
    rcases mem_cons.mp hc with rfl | hc
    · exact hdigit i
    · rcases mem_cons.mp hc with rfl | hc
      · exact hdigit j
      · rw [eq_of_mem_replicate hc]
        decide⟩)

/-- A write of three bytes. -/
def putAt (i j : Fin 16) (version : ℕ) (h : version ≤ maxVersion) : Request :=
  .putSlot (slotAt i j) ⟨"QUJD".toList, version, by decide, h⟩ 100

/-- All slots of the account are used, and one of them is given up for another. -/
def fillAndSwap : List Request :=
  ((finRange 16).map fun i => putAt i 0 0 (by decide)) ++
    ((finRange 16).map fun i => putAt i 1 0 (by decide)) ++
    [.deleteSlot (slotAt 3 1) 1 (by decide) (by decide), putAt 0 2 0 (by decide)]

theorem live_slots_capped_full :
    (serve handler (⟨⟨∅⟩, ⟨[]⟩, []⟩ : State) fillAndSwap).db.liveCount 1 = maxSlots ∧
      (serve handler (⟨⟨∅⟩, ⟨[]⟩, []⟩ : State) fillAndSwap).db.liveCount 1 ≤ maxSlots :=
  ⟨by decide +kernel,
    live_slots_capped (s := ⟨⟨∅⟩, ⟨[]⟩, []⟩) (by decide) (.of_serve (by decide +kernel))⟩

/-- The slot that was given up is written again on top of its tombstone. -/
theorem revived_slot_exceeds_cap : Serial handler (fun _ _ => True) (⟨⟨∅⟩, ⟨[]⟩, []⟩ : State)
        (serve handler ⟨⟨∅⟩, ⟨[]⟩, []⟩ (fillAndSwap ++ [putAt 3 1 2 (by decide)])) ∧
      maxSlots < (serve handler (⟨⟨∅⟩, ⟨[]⟩, []⟩ : State)
        (fillAndSwap ++ [putAt 3 1 2 (by decide)])).db.liveCount 1 :=
  ⟨.of_serve (by decide +kernel), by decide +kernel⟩

end RcqServer.Vault
