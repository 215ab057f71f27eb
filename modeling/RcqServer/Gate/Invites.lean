import RcqServer.Gate.Owners

/-!
# What an invite admits

A new device row takes one use of the invite that it was minted from, and names that invite as its
parent.  A device that has a row already gets a new token for it, at the cost of nothing, whichever
invite it presents; the row stays with its parent, and so it is the parent whose revocation reaches
it.  Uses, parents and admissions agree as long as devices present the invite that they came with.
-/

namespace RcqServer.Gate.Invites

open ReadCommitted Outline List Option Table

variable {s s' : State} {ws : List Write} {r : Request}

/-- The devices that were minted from an invite. -/
def children (db : Db) (id : ℕ) : Finset Dev := db.devices.keysWhere fun _ row => row.parentId == id

variable {dev : Dev} {id : ℕ} {db : Db} {e : Ext} {row : Device} {l : Label}

theorem mem_children :
    dev ∈ children db id ↔ ∃ row, db.devices.get dev = some row ∧ row.parentId = id := by
  simp [children, mem_keysWhere]

structure Inv (s : State) : Prop where
  fresh : Fresh s.ext
  ids : ∀ id row, s.db.issued.get id = some row → id < s.ext.nextId
  issued : ∀ id row, s.db.issued.get id = some row → s.ext.owners row.tokenHash = some .operator
  device : ∀ dev row, s.db.devices.get dev = some row →
    s.ext.owners row.tokenHash = some (.device dev row.parentId) ∧
      (s.db.issued.get row.parentId).isSome
  uses : ∀ id row, s.db.issued.get id = some row →
    (children s.db id).card = row.uses ∧ row.maxUses.all (row.uses ≤ ·)
  cascade : ∀ id row, s.db.issued.get id = some row → row.kind = .invite → row.revoked →
    ∀ dev d, s.db.devices.get dev = some d → d.parentId = id → d.revoked
  admitted : ∀ dev id, (dev, id) ∈ s.ext.admitted ↔ dev ∈ children s.db id

/-- What every step leads to. -/
structure Later (s s' : State) : Prop where
  owners : Keeps s.ext s'.ext
  nextId_le : s.ext.nextId ≤ s'.ext.nextId
  parents : ∀ dev row, s.db.devices.get dev = some row →
    ∃ row', s'.db.devices.get dev = some row' ∧ row'.parentId = row.parentId
  kinds : ∀ id row, s.db.issued.get id = some row →
    ∃ row', s'.db.issued.get id = some row' ∧ row'.kind = row.kind

theorem Later.refl (s : State) : Later s s :=
  ⟨fun _ _ h => h, le_rfl, fun _ row h => ⟨row, h, rfl⟩, fun _ row h => ⟨row, h, rfl⟩⟩

theorem Later.trans {s'' : State} (h : Later s s') (h' : Later s' s'') : Later s s'' where
  owners := h.owners.trans h'.owners
  nextId_le := h.nextId_le.trans h'.nextId_le
  parents dev row hrow := by
    obtain ⟨row', hrow', hparent⟩ := h.parents dev row hrow
    obtain ⟨row'', hrow'', hparent'⟩ := h'.parents dev row' hrow'
    exact ⟨row'', hrow'', hparent'.trans hparent⟩
  kinds id row hrow := by
    obtain ⟨row', hrow', hkind⟩ := h.kinds id row hrow
    obtain ⟨row'', hrow'', hkind'⟩ := h'.kinds id row' hrow'
    exact ⟨row'', hrow'', hkind'.trans hkind⟩

/-- The row is locked by the pending writes. -/
abbrev Locked (ws : List Write) (row : RowId) : Prop := row ∈ lockedRows Db ws

/-- What a session may count on: nobody writes the rows that it has locked, and nobody mints a device
from an invite that it has locked. -/
structure Rely (ws : List Write) (s s' : State) : Prop extends Later s s' where
  devices : ∀ dev, Locked ws (.device dev) → s'.db.devices.get dev = s.db.devices.get dev
  invites : ∀ id, Locked ws (.issued id) → s'.db.issued.get id = s.db.issued.get id
  minted : ∀ id, Locked ws (.issued id) → children s'.db id ⊆ children s.db id

/-- A step writes the rows that it has locked, and mints devices from invites that it has locked. -/
structure Guar (ws : List Write) (s s' : State) : Prop extends Later s s' where
  devices : ∀ dev, ¬Locked ws (.device dev) → s'.db.devices.get dev = s.db.devices.get dev
  invites : ∀ id, ¬Locked ws (.issued id) → s'.db.issued.get id = s.db.issued.get id
  minted : ∀ id, ¬Locked ws (.issued id) → children s'.db id ⊆ children s.db id

/-- A device that has a row presents the invite that its row was minted from. -/
def PresentsParent (s : State) : Label → Prop
  | .upsert dev invite => ∀ row ∈ s.db.devices.get dev, row.parentId = invite
  | _ => True

def outline : Outline Db Ext Write Label Request where
  Inv := Inv
  Rely _ _ ws s s' := Rely ws s s'
  Guar _ _ ws s s' := Guar ws s s'
  Start _ _ := True
  Cond _ l s := PresentsParent s l
  Apart _ _ _ _ := True

theorem guar_refl (ws : List Write) (s : State) : Guar ws s s :=
  ⟨.refl s, fun _ _ => rfl, fun _ _ => rfl, fun _ _ => subset_rfl⟩

theorem coherent : outline.Coherent where
  rely_refl _ _ _ s := ⟨.refl s, fun _ _ => rfl, fun _ _ => rfl, fun _ _ => subset_rfl⟩
  rely_trans _ _ _ _ _ _ h h' :=
    ⟨h.toLater.trans h'.toLater, fun dev hd => (h'.devices dev hd).trans (h.devices dev hd),
      fun id hid => (h'.invites id hid).trans (h.invites id hid),
      fun id hid => (h'.minted id hid).trans (h.minted id hid)⟩
  guar_refl _ _ ws s := guar_refl ws s
  rely_of_guar _ _ _ _ _ _ _ _ _ hstep hlocks _ :=
    ⟨hstep.guar.toLater, fun _ hd => hstep.guar.devices _ (hlocks _ hd),
      fun _ hid => hstep.guar.invites _ (hlocks _ hid),
      fun _ hid => hstep.guar.minted _ (hlocks _ hid)⟩

/-! ## Effects -/

/-- An effect that concerns neither ids nor admissions. -/
structure Mild (e e' : Ext) : Prop where
  owners : Keeps e e'
  fresh : Fresh e → Fresh e'
  nextId_le : e.nextId ≤ e'.nextId
  admitted : e'.admitted = e.admitted

theorem mild_of_eq {e' : Ext} (howners : e'.owners = e.owners) (htoken : e'.nextToken = e.nextToken)
    (hid : e.nextId ≤ e'.nextId) (hadmitted : e'.admitted = e.admitted) : Mild e e' :=
  ⟨Keeps.of_eq howners, fun h => by rwa [Fresh, howners, htoken], hid, hadmitted⟩

theorem Inv.mild (hinv : Inv s) (h : Mild s.ext e) : Inv (s.tell e) where
  fresh := h.fresh hinv.fresh
  ids id row hrow := (hinv.ids id row hrow).trans_le h.nextId_le
  issued id row hrow := h.owners _ _ (hinv.issued id row hrow)
  device dev row hrow := ⟨h.owners _ _ (hinv.device dev row hrow).1, (hinv.device dev row hrow).2⟩
  uses := hinv.uses
  cascade := hinv.cascade
  admitted dev id := by
    rw [Shared.tell_ext, h.admitted]
    exact hinv.admitted dev id

theorem step_mild (hinv : Inv s) (h : Mild s.ext e) : outline.Step r l ws s (s.tell e) :=
  ⟨hinv.mild h, ⟨h.owners, h.nextId_le, (Later.refl s).parents, (Later.refl s).kinds⟩,
    fun _ _ => rfl, fun _ _ => rfl, fun _ _ => subset_rfl⟩

theorem Inv.owned (hinv : Inv s) : Owned s.ext s.db :=
  ⟨fun dev row hrow => ⟨row.parentId, (hinv.device dev row hrow).1⟩, hinv.issued⟩

/-! ## Commits -/

/-- Writes of rows with the tokens of their owners, which keep kinds and parents.  A device has a
parent that is there, and if it is new one that is locked. -/
structure Tidy (ws : List Write) (s : State) (e : Ext) : Prop where
  issued : ∀ id w, Write.issued id w ∈ ws → ∃ row, w = some row ∧ id < e.nextId ∧
    e.owners row.tokenHash = some .operator ∧ ∀ old ∈ s.db.issued.get id, row.kind = old.kind
  devices : ∀ dev w, Write.device dev w ∈ ws → ∃ row, w = some row ∧
    e.owners row.tokenHash = some (.device dev row.parentId) ∧
      (s.db.issued.get row.parentId).isSome ∧
      (∀ old ∈ s.db.devices.get dev, row.parentId = old.parentId) ∧
      (s.db.devices.get dev = none → Locked ws (.issued row.parentId))

theorem Tidy.kinds {irow : Issued} (h : Tidy ws s e) (hid : s.db.issued.get id = some irow) :
    ∃ row', (s.view ws).issued.get id = some row' ∧ row'.kind = irow.kind := by
  rcases sets_issued.get_applyAll ws s.db id with hsame | hmem
  · exact ⟨irow, hsame.trans hid, rfl⟩
  · obtain ⟨row', hrow', -, -, hkind⟩ := h.issued id _ hmem
    exact ⟨row', hrow', hkind irow hid⟩

theorem Tidy.parents (h : Tidy ws s e) (hrow : s.db.devices.get dev = some row) :
    ∃ row', (s.view ws).devices.get dev = some row' ∧ row'.parentId = row.parentId := by
  rcases sets_devices.get_applyAll ws s.db dev with hsame | hmem
  · exact ⟨row, hsame.trans hrow, rfl⟩
  · obtain ⟨row', hrow', -, -, hparent, -⟩ := h.devices dev _ hmem
    exact ⟨row', hrow', hparent row hrow⟩

/-- The commit of such writes is a step if uses, flags and admissions agree after it. -/
theorem Tidy.step (h : Tidy ws s e) (hinv : Inv s) (hkeeps : Keeps s.ext e) (hfresh : Fresh e)
    (hnext : s.ext.nextId ≤ e.nextId) (huses : ∀ id row, (s.view ws).issued.get id = some row →
      (children (s.view ws) id).card = row.uses ∧ row.maxUses.all (row.uses ≤ ·))
    (hcascade : ∀ id row, (s.view ws).issued.get id = some row → row.kind = .invite → row.revoked →
      ∀ dev d, (s.view ws).devices.get dev = some d → d.parentId = id → d.revoked)
    (hadmitted : ∀ dev id, (dev, id) ∈ e.admitted ↔ dev ∈ children (s.view ws) id) :
    outline.Step r l ws s (s.commit ws e) := by
  have hissued : ∀ id row, (s.view ws).issued.get id = some row →
      id < e.nextId ∧ e.owners row.tokenHash = some .operator := by
    intro id row hid
    rcases sets_issued.get_applyAll ws s.db id with hsame | hmem
    · have hold := hsame.symm.trans hid
      exact ⟨(hinv.ids id row hold).trans_le hnext, hkeeps _ _ (hinv.issued id row hold)⟩
    · obtain ⟨row', hrow', hlt, howner, -⟩ := h.issued id _ hmem
      obtain rfl : row = row' := some.inj (hid.symm.trans hrow')
      exact ⟨hlt, howner⟩
  have hdevice : ∀ dev row, (s.view ws).devices.get dev = some row →
      e.owners row.tokenHash = some (.device dev row.parentId) ∧
        (s.db.issued.get row.parentId).isSome ∧
        (s.db.devices.get dev = none → Locked ws (.issued row.parentId)) := by
    intro dev row hrow
    rcases sets_devices.get_applyAll ws s.db dev with hsame | hmem
    · have hold := hsame.symm.trans hrow
      exact ⟨hkeeps _ _ (hinv.device dev row hold).1, (hinv.device dev row hold).2,
        fun hnone => (by cases hold.symm.trans hnone)⟩
    · obtain ⟨row', hrow', howner, hthere, -, hlocked⟩ := h.devices dev _ hmem
      obtain rfl : row = row' := some.inj (hrow.symm.trans hrow')
      exact ⟨howner, hthere, hlocked⟩
  refine ⟨⟨hfresh, fun id row hid => (hissued id row hid).1, fun id row hid => (hissued id row hid).2,
    ?_, huses, hcascade, hadmitted⟩, ⟨hkeeps, hnext, fun _ _ => h.parents, fun _ _ => h.kinds⟩, ?_, ?_, ?_⟩
  · intro dev row hrow
    obtain ⟨howner, hthere, -⟩ := hdevice dev row hrow
    obtain ⟨irow, hirow⟩ := isSome_iff_exists.mp hthere
    obtain ⟨irow', hirow', -⟩ := h.kinds hirow
    exact ⟨howner, isSome_iff_exists.mpr ⟨irow', hirow'⟩⟩
  · exact fun dev hd => sets_devices.get_applyAll_of_notMem
      (fun v hmem => hd (mem_map.mpr ⟨_, hmem, rfl⟩)) _
  · exact fun id hid => sets_issued.get_applyAll_of_notMem
      (fun v hmem => hid (mem_map.mpr ⟨_, hmem, rfl⟩)) _
  · -- a device of an invite that is not locked was there before, with that invite
    intro id hid dev hdev
    obtain ⟨row, hrow, rfl⟩ := mem_children.mp hdev
    cases hold : s.db.devices.get dev with
    | none => exact absurd ((hdevice dev row hrow).2.2 hold) hid
    | some old =>
      obtain ⟨row', hrow', hparent⟩ := h.parents hold
      obtain rfl : row = row' := some.inj (hrow.symm.trans hrow')
      exact mem_children.mpr ⟨old, hold, hparent.symm⟩

/-! ## A device gets a new token -/

theorem children_set {d : Dev} :
    d ∈ children { db with devices := db.devices.set dev (some row) } id ↔
      if d = dev then row.parentId = id else d ∈ children db id := by
  rw [mem_children]
  dsimp only
  by_cases hd : d = dev
  · subst hd
    rw [get_set_self, if_pos rfl]
    simp
  · rw [get_set_ne _ hd, if_neg hd, mem_children]

/-- A row that keeps its parent leaves all devices with their parents. -/
theorem children_set_same {old : Device}
    (hold : db.devices.get dev = some old) (hparent : row.parentId = old.parentId) (id : ℕ) :
    children { db with devices := db.devices.set dev (some row) } id = children db id := by
  ext d
  rw [children_set]
  split
  · rename_i hd
    rw [hd, mem_children, hold, hparent]
    simp
  · rfl

/-- The upsert of a device that has a row. -/
theorem step_remint {invite token : ℕ}
    (hrow : s.db.devices.get dev = some row) (hparent : row.parentId = invite)
    (howner : s.ext.owners token = some (.device dev invite)) (hinv : Inv s) :
    outline.Step r (.commitRedeem dev invite) [.device dev (some { row with tokenHash := token })] s
      (s.commit [Write.device dev (some { row with tokenHash := token })]
        { s.ext with admitted := (dev, invite) :: s.ext.admitted }) := by
  have hchildren : ∀ id, children { s.db with
      devices := s.db.devices.set dev (some { row with tokenHash := token }) } id = children s.db id :=
    children_set_same hrow rfl
  have htidy : Tidy [.device dev (some { row with tokenHash := token })] s
      { s.ext with admitted := (dev, invite) :: s.ext.admitted } := by
    constructor
    · simp
    · rintro d w hmem
      cases mem_singleton.mp hmem
      exact ⟨_, rfl, hparent ▸ howner, (hinv.device dev row hrow).2,
        fun old hold => (by cases hrow.symm.trans hold; rfl),
        fun hnone => (by cases hrow.symm.trans hnone)⟩
  refine htidy.step hinv (fun _ _ h => h) hinv.fresh le_rfl ?_ ?_ ?_
  · intro id irow hid
    have huses := hinv.uses id irow hid
    rw [← hchildren id] at huses
    exact huses
  · intro id irow hid hkind hrevoked d row' hd hp
    rcases get_set_some hd with ⟨rfl, rfl⟩ | ⟨-, hd⟩
    · exact hinv.cascade id irow hid hkind hrevoked d row hrow hp
    · exact hinv.cascade id irow hid hkind hrevoked d row' hd hp
  · intro d id
    change (d, id) ∈ (dev, invite) :: s.ext.admitted ↔ d ∈ children { s.db with
      devices := s.db.devices.set dev (some { row with tokenHash := token }) } id
    rw [hchildren id, mem_cons, hinv.admitted, Prod.mk.injEq]
    refine ⟨fun h => h.elim ?_ fun hmem => hmem, .inr⟩
    rintro ⟨rfl, rfl⟩
    exact mem_children.mpr ⟨row, hrow, hparent⟩

/-! ## A new device -/

/-- The writes of a redeem by a device without a row. -/
def mintWrites (dev : Dev) (invite token : ℕ) (irow : Issued) : List Write :=
  [.device dev (some ⟨token, invite, false⟩),
    .issued invite (some { irow with uses := irow.uses + 1 })]

theorem card_children_mint (hnone : db.devices.get dev = none) (row : Device) (id : ℕ) :
    (children { db with devices := db.devices.set dev (some row) } id).card =
      (children db id).card + if row.parentId = id then 1 else 0 := by
  have hnew : dev ∉ children db id := by
    rw [mem_children, hnone]
    simp
  by_cases hid : row.parentId = id
  · rw [if_pos hid, ← Finset.card_insert_of_notMem hnew]
    congr 1
    ext d
    rw [children_set, Finset.mem_insert]
    by_cases hd : d = dev
    · simp [hd, hid]
    · simp [hd]
  · rw [if_neg hid, Nat.add_zero]
    congr 1
    ext d
    rw [children_set]
    by_cases hd : d = dev
    · subst hd
      simp [hid, hnew]
    · simp [hd]

theorem step_mint {invite token : ℕ} {presented : ℕ} {now : Time} {irow : Issued}
    (hnone : s.db.devices.get dev = none) (hissued : s.db.issued.get invite = some irow)
    (hcons : irow.consumable presented now)
    (howner : s.ext.owners token = some (.device dev invite)) (hinv : Inv s) :
    outline.Step r (.commitRedeem dev invite) (mintWrites dev invite token irow) s
      (s.commit (mintWrites dev invite token irow)
        { s.ext with admitted := (dev, invite) :: s.ext.admitted }) := by
  simp only [Issued.consumable, Bool.and_eq_true, Bool.not_eq_true', beq_iff_eq,
    Option.any_eq_true, decide_eq_true_eq] at hcons
  obtain ⟨⟨⟨⟨-, hkind⟩, hrevoked⟩, m, hm, hlt⟩, -⟩ := hcons
  have htidy : Tidy (mintWrites dev invite token irow) s
      { s.ext with admitted := (dev, invite) :: s.ext.admitted } := by
    constructor
    · intro id w hmem
      obtain ⟨rfl, rfl⟩ : id = invite ∧ w = some { irow with uses := irow.uses + 1 } := by
        simpa [mintWrites] using hmem
      exact ⟨_, rfl, hinv.ids id irow hissued, hinv.issued id irow hissued,
        fun old hold => (by cases hissued.symm.trans hold; rfl)⟩
    · intro d w hmem
      obtain ⟨rfl, rfl⟩ : d = dev ∧ w = some ⟨token, invite, false⟩ := by
        simpa [mintWrites] using hmem
      exact ⟨_, rfl, howner, isSome_iff_exists.mpr ⟨irow, hissued⟩,
        fun old hold => (by cases hnone.symm.trans hold),
        fun _ => by simp [Locked, lockedRows, mintWrites, Store.key]⟩
  refine htidy.step hinv (fun _ _ h => h) hinv.fresh le_rfl ?_ ?_ ?_
  · intro id row' hid
    have hcard : (children { s.db with
        devices := s.db.devices.set dev (some ⟨token, invite, false⟩) } id).card =
        (children s.db id).card + if invite = id then 1 else 0 := card_children_mint hnone _ id
    rcases get_set_some hid with ⟨rfl, rfl⟩ | ⟨hne, hid⟩
    · rw [if_pos rfl, (hinv.uses id irow hissued).1] at hcard
      refine ⟨hcard, ?_⟩
      rw [hm]
      exact decide_eq_true (Nat.succ_le_of_lt hlt)
    · rw [if_neg (Ne.symm hne), Nat.add_zero, (hinv.uses id row' hid).1] at hcard
      exact ⟨hcard, (hinv.uses id row' hid).2⟩
  · intro id row' hid hk hr d drow hd hp
    rcases get_set_some hid with ⟨rfl, rfl⟩ | ⟨hne, hid⟩
    · exact absurd (hrevoked.symm.trans hr) Bool.false_ne_true
    · rcases get_set_some hd with ⟨rfl, rfl⟩ | ⟨-, hd⟩
      · exact absurd hp.symm hne
      · exact hinv.cascade id row' hid hk hr d drow hd hp
  · intro d id
    change (d, id) ∈ (dev, invite) :: s.ext.admitted ↔ d ∈ children { s.db with
      devices := s.db.devices.set dev (some ⟨token, invite, false⟩) } id
    rw [mem_cons, hinv.admitted, Prod.mk.injEq, children_set]
    by_cases hd : d = dev
    · subst hd
      have hnot : d ∉ children s.db id := by
        rw [mem_children, hnone]
        simp
      simp [hnot, eq_comm]
    · simp [hd]

/-! ## Revocations -/

/-- Writes that set flags on rows as they are. -/
structure Flags (ws : List Write) (s : State) : Prop where
  devices : ∀ dev row', Write.device dev row' ∈ ws →
    ∃ row, s.db.devices.get dev = some row ∧ row' = some { row with revoked := true }
  issued : ∀ id row', Write.issued id row' ∈ ws →
    ∃ row, s.db.issued.get id = some row ∧ row' = some { row with revoked := true }

theorem Flags.nil (s : State) : Flags [] s :=
  ⟨nofun, nofun⟩

theorem Flags.rely {l : Option Label} (h : Flags ws s) (hrely : outline.Rely r l ws s s') :
    Flags ws s' := by
  constructor
  · intro dev row' hmem
    rw [hrely.devices dev (mem_map.mpr ⟨_, hmem, rfl⟩)]
    exact h.devices dev row' hmem
  · intro id row' hmem
    rw [hrely.invites id (mem_map.mpr ⟨_, hmem, rfl⟩)]
    exact h.issued id row' hmem

theorem Flags.append {new : List Write} (h : Flags ws s) (hnew : Flags new s) :
    Flags (ws ++ new) s := by
  constructor
  · intro dev row' hmem
    exact (mem_append.mp hmem).elim (h.devices dev row') (hnew.devices dev row')
  · intro id row' hmem
    exact (mem_append.mp hmem).elim (h.issued id row') (hnew.issued id row')

theorem Flags.device (h : Flags ws s) {row' : Device}
    (hrow' : (s.view ws).devices.get dev = some row') :
    ∃ row, s.db.devices.get dev = some row ∧ (row' = row ∨ row' = { row with revoked := true }) := by
  rcases sets_devices.get_applyAll ws s.db dev with hsame | hmem
  · exact ⟨row', hsame ▸ hrow', .inl rfl⟩
  · obtain ⟨row, hrow, hset⟩ := h.devices dev _ hmem
    exact ⟨row, hrow, .inr (some.inj (hrow'.symm.trans hset))⟩

theorem Flags.invite (h : Flags ws s) {row' : Issued}
    (hrow' : (s.view ws).issued.get id = some row') :
    ∃ row, s.db.issued.get id = some row ∧ (row' = row ∨
      row' = { row with revoked := true } ∧ Write.issued id (some row') ∈ ws) := by
  rcases sets_issued.get_applyAll ws s.db id with hsame | hmem
  · exact ⟨row', hsame ▸ hrow', .inl rfl⟩
  · obtain ⟨row, hrow, hset⟩ := h.issued id _ hmem
    have hview : (applyAll ws s.db).issued.get id = some row' := hrow'
    rw [hview] at hmem
    exact ⟨row, hrow, .inr ⟨some.inj (hrow'.symm.trans hset), hmem⟩⟩

theorem Flags.tidy (h : Flags ws s) (he : Mild s.ext e) (hinv : Inv s) : Tidy ws s e where
  issued id w hmem := by
    obtain ⟨row, hrow, rfl⟩ := h.issued id w hmem
    exact ⟨_, rfl, (hinv.mild he).ids id row hrow, (hinv.mild he).issued id row hrow,
      fun old hold => (by cases hrow.symm.trans hold; rfl)⟩
  devices dev w hmem := by
    obtain ⟨row, hrow, rfl⟩ := h.devices dev w hmem
    exact ⟨_, rfl, ((hinv.mild he).device dev row hrow).1, (hinv.device dev row hrow).2,
      fun old hold => (by cases hrow.symm.trans hold; rfl),
      fun hnone => (by cases hrow.symm.trans hnone)⟩

theorem Flags.children (h : Flags ws s) (htidy : Tidy ws s e) (id : ℕ) :
    children (s.view ws) id = children s.db id := by
  ext dev
  rw [mem_children, mem_children]
  constructor
  · rintro ⟨row', hrow', hparent⟩
    obtain ⟨row, hrow, rfl | rfl⟩ := h.device hrow'
    · exact ⟨_, hrow, hparent⟩
    · exact ⟨_, hrow, hparent⟩
  · rintro ⟨row, hrow, hparent⟩
    obtain ⟨row', hrow', hsame⟩ := htidy.parents hrow
    exact ⟨row', hrow', hsame.trans hparent⟩

/-- A commit that sets flags, and with the flag of an invite those of its devices. -/
theorem step_flags (h : Flags ws s) (he : Mild s.ext e) (hinv : Inv s)
    (hall : ∀ id row, Write.issued id (some row) ∈ ws → row.kind = .invite →
      ∀ dev ∈ Invites.children s.db id, ∃ row', Write.device dev row' ∈ ws) :
    outline.Step r l ws s (s.commit ws e) := by
  have htidy := h.tidy he hinv
  refine htidy.step hinv he.owners (he.fresh hinv.fresh) he.nextId_le ?_ ?_ ?_
  · intro id row' hid
    rw [h.children htidy]
    obtain ⟨row, hrow, rfl | ⟨rfl, -⟩⟩ := h.invite hid
    · exact hinv.uses id _ hrow
    · exact hinv.uses id row hrow
  · intro id row' hid hkind hrevoked dev drow' hd hp
    obtain ⟨drow, hdrow, rfl | rfl⟩ := h.device hd
    · obtain ⟨row, hrow, rfl | ⟨rfl, hmem⟩⟩ := h.invite hid
      · exact hinv.cascade id _ hrow hkind hrevoked dev _ hdrow hp
      · -- the flag of the invite is new, and so is that of the device
        obtain ⟨w, hw⟩ := hall id _ hmem hkind dev (mem_children.mpr ⟨_, hdrow, hp⟩)
        obtain ⟨old, -, hset⟩ := h.devices dev _ (sets_devices.get_applyAll_of_mem hw s.db)
        have hview : (applyAll ws s.db).devices.get dev = some drow' := hd
        obtain rfl := some.inj (hview.symm.trans hset)
        rfl
    · rfl
  · intro dev id
    rw [h.children htidy]
    exact (hinv.mild he).admitted dev id

/-! ## A new invite -/

theorem step_create {row : Issued} (hinv : Inv s)
    (hnone : s.db.issued.get id = none) (hid : id < s.ext.nextId)
    (howner : s.ext.owners row.tokenHash = some .operator) (huses : row.uses = 0) :
    outline.Step r l [.issued id (some row)] s (s.commit [Write.issued id (some row)] s.ext) := by
  -- no device names an invite that was not there
  have hempty : ∀ dev d, s.db.devices.get dev = some d → d.parentId ≠ id := by
    rintro dev d hd rfl
    have hsome := (hinv.device dev d hd).2
    rw [hnone] at hsome
    cases hsome
  have hzero : (children s.db id).card = 0 := by
    refine Finset.card_eq_zero.mpr (Finset.eq_empty_of_forall_notMem fun dev hdev => ?_)
    obtain ⟨d, hd, hp⟩ := mem_children.mp hdev
    exact hempty dev d hd hp
  have htidy : Tidy [.issued id (some row)] s s.ext := by
    constructor
    · intro i w hmem
      cases mem_singleton.mp hmem
      exact ⟨row, rfl, hid, howner, fun old hold => (by cases hnone.symm.trans hold)⟩
    · simp
  refine htidy.step hinv (fun _ _ h => h) hinv.fresh le_rfl ?_ ?_ hinv.admitted
  · intro i row' hi
    rcases get_set_some hi with ⟨rfl, rfl⟩ | ⟨-, hi⟩
    · refine ⟨hzero.trans huses.symm, ?_⟩
      rw [huses]
      cases row'.maxUses with
      | none => rfl
      | some m => exact decide_eq_true (Nat.zero_le m)
    · exact hinv.uses i row' hi
  · intro i row' hi hkind hr dev d hd hp
    rcases get_set_some hi with ⟨rfl, rfl⟩ | ⟨-, hi⟩
    · exact absurd hp (hempty dev d hd)
    · exact hinv.cascade i row' hi hkind hr dev d hd hp

end RcqServer.Gate.Invites
