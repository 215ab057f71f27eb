import RcqServer.Vault.Slots
import RcqServer.ReadCommitted.Transaction

/-!
# The versions of a slot

Every committed write of a slot sits on top of the one before: the session that has written the row
keeps it locked until it commits, so the version that its condition has compared is still the
current one.  The updates of a slot are a chain, in every interleaving.
-/

namespace RcqServer.Vault

open ReadCommitted Prog Outline Versioned List World Shared

/-- The version of a slot in a committed state. -/
def Db.versionAt (db : Db) (key : SlotKey) : ℕ :=
  versionOf VaultSlot.version (db.vaultSlots.get key)

/-- What a request is to store, on top of which version. -/
def Request.update : Request → Option Accepted
  | .putSlot key body _ =>
    match canonicalBlob body.blob with
    | .ok blob => some ⟨key, ⟨body.version, ⟨some blob, body.version + 1⟩⟩⟩
    | .error _ => none
  | .deleteSlot key version _ _ => some ⟨key, ⟨version, ⟨none, version + 1⟩⟩⟩
  | _ => none

/-- A step of a request leaves the slots alone, or stores what the request is to store. -/
def Stores (r : Request) (s s' : State) : Prop :=
  (s'.db = s.db ∧ s'.ext = s.ext) ∨
    ∃ a, r.update = some a ∧ s'.ext.accepted = a :: s.ext.accepted

/-! ## The outline -/

/-- From the rows of `first` on, the updates of every slot are a chain, and no committed state has
a smaller version than one before. -/
structure Inv (first : Db) (s : State) : Prop where
  chain : ∀ key, Chain VaultSlot.version (first.vaultSlots.get key) (s.ext.updatesOf key)
    (s.db.vaultSlots.get key)
  monotone : ∀ key, ((s.db :: s.hist).map (·.versionAt key)).Pairwise (· ≥ ·)

/-- Others leave a row alone that is locked, and a commit leaves the rows alone that are not. -/
def outline (first : Db) : Outline Db Ext Write Label Request where
  Inv := Inv first
  Rely _ _ ws s s' := ∀ key ∈ lockedRows Db ws, s'.db.vaultSlots.get key = s.db.vaultSlots.get key
  Guar r _ ws s s' := Stores r s s' ∧
    ∀ key ∉ lockedRows Db ws, s'.db.vaultSlots.get key = s.db.vaultSlots.get key
  Start _ _ := True
  Cond _ _ _ := True
  Apart _ _ _ _ := True

theorem coherent (first : Db) : (outline first).Coherent where
  rely_refl _ _ _ _ _ _ := rfl
  rely_trans _ _ _ _ _ _ h h' key hlock := (h' key hlock).trans (h key hlock)
  guar_refl _ _ _ _ := ⟨.inl ⟨rfl, rfl⟩, fun _ _ => rfl⟩
  rely_of_guar _ _ _ _ _ _ _ _ _ hstep hlocks _ key hlock := hstep.guar.2 key (hlocks key hlock)

variable {first : Db} {r : Request} {l : Label} {key : SlotKey} {based : ℕ} {row : VaultSlot}
  {ws : List Write} {s : State}

/-- The one pending write puts `row` on top of the version `based`, which is the current one. -/
structure OnTop (key : SlotKey) (based : ℕ) (row : VaultSlot) (ws : List Write) (s : State) :
    Prop where
  pending : ws = [⟨key, some row⟩]
  current : based = s.db.versionAt key
  advance : row.version = based + 1

theorem OnTop.of_rely (h : OnTop key based row ws s) {s' : State}
    (hrely : (outline first).Rely r (some l) ws s s') : OnTop key based row ws s' := by
  refine ⟨h.pending, ?_, h.advance⟩
  have hlock : key ∈ lockedRows Db ws := by
    rw [h.pending]
    exact mem_singleton.mpr rfl
  rw [h.current, Db.versionAt, Db.versionAt, hrely key hlock]

theorem updatesOf_cons (e : Ext) (a : Accepted) (key : SlotKey) :
    Ext.updatesOf ⟨a :: e.accepted⟩ key =
      if a.key = key then a.update :: e.updatesOf key else e.updatesOf key := by
  by_cases hkey : a.key = key
  · simp [Ext.updatesOf, hkey]
  · simp [Ext.updatesOf, hkey]

/-- The commit of such a write continues the chain of its slot and touches no other. -/
theorem step_commit (hr : r.update = some ⟨key, ⟨based, row⟩⟩) (h : OnTop key based row ws s)
    (hinv : Inv first s) :
    (outline first).Step r l ws s (s.commit ws ⟨⟨key, ⟨based, row⟩⟩ :: s.ext.accepted⟩) := by
  have hdb : ∀ key', (s.view ws).vaultSlots.get key' =
      if key' = key then some row else s.db.vaultSlots.get key' := by
    intro key'
    rw [h.pending]
    exact Table.get_set s.db.vaultSlots key key' (some row)
  have hversion : ∀ key', s.db.versionAt key' ≤ (s.view ws).versionAt key' := by
    intro key'
    unfold Db.versionAt
    rw [hdb key']
    split
    · rename_i heq
      subst heq
      exact (Nat.le_succ _).trans (by rw [← Db.versionAt, ← h.current]; exact h.advance.ge)
    · exact le_rfl
  refine ⟨⟨fun key' => ?_, fun key' => ?_⟩, .inr ⟨_, hr, rfl⟩, fun key' hlock => ?_⟩
  · rw [commit_ext, commit_db, updatesOf_cons, hdb key']
    by_cases hkey : key' = key
    · subst hkey
      rw [if_pos rfl, if_pos rfl]
      exact .cons (hinv.chain key') h.current h.advance
    · rw [if_neg (Ne.symm hkey), if_neg hkey]
      exact hinv.chain key'
  · -- the state that the commit replaces was above all before it
    have hbefore := hinv.monotone key'
    rw [commit_db, commit_hist, map_cons, pairwise_cons]
    refine ⟨fun v hv => ?_, hbefore⟩
    rw [map_cons] at hv hbefore
    rcases mem_cons.mp hv with rfl | hold
    · exact hversion key'
    · exact ((pairwise_cons.mp hbefore).1 v hold).trans (hversion key')
  · rw [commit_db, hdb key', if_neg]
    rintro rfl
    rw [h.pending] at hlock
    exact hlock (mem_singleton.mpr rfl)

/-! ## Rules -/

theorem wp_commitSlot (hr : r.update = some ⟨key, ⟨based, row⟩⟩) (h : OnTop key based row ws s) :
    (outline first).Safe r (commitSlot key based row) ws s := by
  intro s' hrely hinv _
  exact ⟨step_commit hr (h.of_rely hrely) hinv, trivial⟩

theorem wp_refuseStale {α : Type} {Q : α → List Write → State → Prop} :
    (outline first).wp r (refuseStale key) Q ws s :=
  wp_read_bind (coherent first) fun _ _ _ _ => trivial

/-- A slot is created only where there is no row. -/
theorem wp_insertSlot (hrow : row.version = 1) :
    (outline first).wp r (insertSlot key row) (fun _ ws s => OnTop key 0 row ws s) [] s := by
  intro s' _ hinv _
  rw [tell_same]
  refine ⟨⟨hinv, (coherent first).guar_refl _ _ _ _⟩, ?_⟩
  cases hget : s'.db.vaultSlots.get key with
  | some old =>
    simp only [view_nil, hget, Option.isSome_some, if_true]
    exact fun _ _ _ => wp_refuseStale
  | none =>
    simp only [view_nil, hget, Option.isSome_none, Bool.false_eq_true, if_false]
    exact ⟨rfl, by rw [Db.versionAt, hget, versionOf], hrow⟩

/-- An update that has matched holds the lock of a row with the version that it has compared. -/
theorem wp_updateSlot {cond : VaultSlot → Bool} (hcond : ∀ old, cond old → old.version = based)
    (hrow : row.version = based + 1) : (outline first).wp r (updateSlot key cond row)
      (fun updated ws s => updated → OnTop key based row ws s) [] s := by
  refine wp_write (coherent first) fun s' _ _ _ hmatch => ?_
  rw [view_nil] at hmatch ⊢
  have hcurrent : based = s'.db.versionAt key := by
    cases hget : s'.db.vaultSlots.get key with
    | none =>
      rw [hget] at hmatch
      cases hmatch
    | some old =>
      rw [hget] at hmatch
      rw [Db.versionAt, hget]
      exact (hcond old hmatch).symm
  exact ⟨by rw [if_pos hmatch, nil_append], hcurrent, hrow⟩

/-! ## Requests -/

theorem createSlot_safe {blob : Blob} (hr : r.update = some ⟨key, ⟨0, ⟨some blob, 1⟩⟩⟩) :
    (outline first).Safe r (createSlot key blob) [] s := by
  refine wp_read_bind (coherent first) fun s₁ _ _ _ => ?_
  split
  · exact wp_read_bind (coherent first) fun _ _ _ _ => wp_raiseIf_bind fun _ => trivial
  · exact wp_seq (wp_insertSlot rfl) fun _ _ _ h => safe_map (wp_commitSlot hr h) _

theorem rewriteSlot_safe {blob : Blob} {version : ℕ}
    (hr : r.update = some ⟨key, ⟨version, ⟨some blob, version + 1⟩⟩⟩) :
    (outline first).Safe r (rewriteSlot key blob version) [] s := by
  refine wp_seq (Q := fun (updated : Bool) ws s => updated → OnTop key version _ ws s)
    (wp_updateSlot (fun old h => by simpa using h) rfl) ?_
  intro updated ws s h
  split
  · exact safe_map (wp_commitSlot hr (h ‹_›)) _
  · exact wp_refuseStale

theorem putSlot_safe {body : VaultPutIn} {budget : ℕ} :
    (outline first).Safe (.putSlot key body budget) (putSlot key body budget) [] s := by
  cases hblob : canonicalBlob body.blob with
  | error e =>
    simp only [putSlot, hblob]
    exact trivial
  | ok blob =>
    have hr : (Request.putSlot key body budget).update =
        some ⟨key, ⟨body.version, ⟨some blob, body.version + 1⟩⟩⟩ := by
      simp only [Request.update, hblob]
    simp only [putSlot, hblob]
    refine wp_raiseIf_bind fun _ => ?_
    split
    · rename_i hzero
      rw [hzero] at hr
      exact createSlot_safe hr
    · exact rewriteSlot_safe hr

theorem deleteSlot_safe {version : ℕ} {h₁ : 1 ≤ version} {h₂ : version ≤ maxVersion} :
    (outline first).Safe (.deleteSlot key version h₁ h₂) (deleteSlot key version) [] s := by
  refine wp_read_bind (coherent first) fun s₁ _ _ _ => ?_
  split
  · exact trivial
  · refine wp_seq (Q := fun (updated : Bool) ws s => updated → OnTop key version _ ws s)
      (wp_updateSlot (fun old h => ?_) rfl) ?_
    · simp only [Bool.and_eq_true, beq_iff_eq] at h
      exact h.1
    · intro updated ws s h
      split
      · exact wp_commitSlot rfl (h ‹_›)
      · exact wp_refuseStale

theorem handler_safe (first : Db) (r : Request) (s : State) :
    (outline first).Safe r (handler r) [] s := by
  cases r with
  | putSlot key body budget => exact safe_map putSlot_safe _
  | deleteSlot key version _ _ => exact safe_map deleteSlot_safe _
  | getSlot key =>
    have hget : (outline first).Safe (.getSlot key) (getSlot key) [] s := by
      refine wp_read_bind (coherent first) fun s₁ _ _ _ => ?_
      split
      · exact wp_raiseIf_bind fun _ => trivial
      · exact trivial
    exact safe_map hget _
  | listSlots uin =>
    have hlist : (outline first).Safe (.listSlots uin) (listSlots uin) [] s :=
      wp_read (coherent first) fun _ _ _ _ => trivial
    exact safe_map hlist _

/-! ## Refusals -/

/-- Nothing that can fail comes after the commit. -/
theorem commitSlot_atomic_bind {α : Type} (a : α) :
    ((commitSlot key based row).bind fun _ => .ret a).Atomic := trivial

theorem refuseStale_atomic {α : Type} (key : SlotKey) :
    (refuseStale key : Handler α).Atomic := fun _ _ => trivial

theorem insertSlot_atomic_bind {α : Type} {f : Unit → Handler α} (hf : (f ()).Atomic) :
    ((insertSlot key row).bind f).Atomic := by
  intro db e
  show (Prog.bind (if _ then _ else _) f).Atomic
  split
  · exact fun _ _ => trivial
  · exact hf

theorem updateSlot_open (key : SlotKey) (cond : VaultSlot → Bool) (row : VaultSlot) :
    (updateSlot key cond row).Open fun _ => True :=
  Open.write trivial _ _

theorem handler_atomic (r : Request) : (handler r).Atomic := by
  have hread : ∀ {α : Type} (l : Label) (q : Db → Ext → α),
      (read l q : Handler α).Open fun _ => True := fun l q => Open.read trivial q
  cases r with
  | putSlot key body budget =>
    refine Atomic.bind ?_ fun _ => trivial
    unfold putSlot
    split
    · exact trivial
    · refine Open.atomic_bind (Open.raiseIf (L := fun _ => True)) fun _ => Atomic.ite ?_ ?_
      · refine Open.atomic_bind (hread _ _) fun n => Atomic.ite ?_ ?_
        · refine Open.atomic_bind (hread _ _) fun current => ?_
          exact Open.atomic_bind (Open.raiseIf (L := fun _ => True)) fun _ => trivial
        · exact insertSlot_atomic_bind (commitSlot_atomic_bind 1)
      · refine Open.atomic_bind (updateSlot_open _ _ _) fun updated => Atomic.ite ?_ ?_
        · exact commitSlot_atomic_bind _
        · exact refuseStale_atomic key
  | deleteSlot key version _ _ =>
    refine Atomic.bind ?_ fun _ => trivial
    refine Open.atomic_bind (hread _ _) fun found => ?_
    split
    · exact trivial
    · refine Open.atomic_bind (updateSlot_open _ _ _) fun updated => Atomic.ite ?_ ?_
      · exact trivial
      · exact refuseStale_atomic key
  | getSlot key =>
    refine Atomic.bind ?_ fun _ => trivial
    refine Open.atomic_bind (hread _ _) fun found => ?_
    split
    · exact Open.atomic_bind (Open.raiseIf (L := fun _ => True)) fun _ => trivial
    · exact trivial
  | listSlots uin => exact Atomic.bind (fun _ _ => trivial) fun _ => trivial

/-! ## Runs -/

/-- A slot of account 1. -/
def zeroSlot : SlotKey :=
  (1, ⟨replicate 32 '0', length_replicate, fun c hc => by
    rw [eq_of_mem_replicate hc]
    decide⟩)

theorem abc_le : "QUJD".toList.length ≤ maxBlobB64 := by decide

theorem def_le : "REVG".toList.length ≤ maxBlobB64 := by decide

theorem one_le_maxVersion : 1 ≤ maxVersion := by decide

theorem two_le_maxVersion : 2 ≤ maxVersion := by decide

/-- Two devices create the slot at once; the one that was refused writes again on top of what the
other has stored, and deletes the slot. -/
def twoDevices : List (Action Request) :=
  .start (Request.putSlot zeroSlot ⟨"QUJD".toList, 0, abc_le, Nat.zero_le maxVersion⟩ 100) ::
    .start (Request.putSlot zeroSlot ⟨"REVG".toList, 0, def_le, Nat.zero_le maxVersion⟩ 100) ::
    steps 0 2 ++ steps 1 3 ++ steps 0 2 ++ steps 1 4 ++
    .start (Request.putSlot zeroSlot ⟨"REVG".toList, 1, def_le, one_le_maxVersion⟩ 100) ::
    steps 2 4 ++
    .start (Request.deleteSlot zeroSlot 2 (by decide) two_le_maxVersion) :: steps 3 5

end RcqServer.Vault
