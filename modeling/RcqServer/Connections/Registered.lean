import RcqServer.Connections.Manager

/-!
# The maps of a worker agree

After every sequence of operations the three maps of the manager are about the same sockets, a device
has one socket, and an account has no more sockets than the ceiling allows.  The new socket is never
the one that has to go, so that one socket is always allowed.

All operations but `connect` take sockets away (`Registry.removed`); a `connect` takes sockets away and
then adds one (`Registry.added`).
-/

namespace RcqServer.Connections

open List Function

variable {cap : ℤ} {w : Worker} {m : Manager} {uin : Uin} {ws : Socket}

/-- The maps are about the same sockets, and those of an account are of different devices. -/
structure Registry (accepted : Socket → Option Uin) (m : Manager) : Prop where
  accepted : ∀ uin ws, ws ∈ m.socketsOf uin → accepted ws = some uin
  device : ∀ ws, (m.deviceOf ws).isSome ↔ ∃ uin, ws ∈ m.socketsOf uin
  opened : ∀ ws, (m.openedAt ws).isSome ↔ ∃ uin, ws ∈ m.socketsOf uin
  nodup : ∀ uin, (m.socketsOf uin).Nodup
  single : ∀ uin, ∀ a ∈ m.socketsOf uin, ∀ b ∈ m.socketsOf uin, m.deviceOf a = m.deviceOf b → a = b

/-- No account has an empty set or too many sockets. -/
structure Sized (cap : ℤ) (m : Manager) : Prop where
  capped : ∀ uin, ((m.socketsOf uin).length : ℤ) ≤ max 1 cap
  nonempty : ∀ uin, m.conns uin ≠ some []

/-! ## Taking sockets away -/

/-- The sockets `gone` are nowhere any more, the others are where they were. -/
structure Removed (gone : List Socket) (m m' : Manager) : Prop where
  sockets : ∀ uin, m'.socketsOf uin = (m.socketsOf uin).filter (· ∉ gone)
  deviceOf : ∀ ws, m'.deviceOf ws = if ws ∈ gone then none else m.deviceOf ws
  openedAt : ∀ ws, m'.openedAt ws = if ws ∈ gone then none else m.openedAt ws

variable {gone : List Socket} {accepted : Socket → Option Uin}

theorem Registry.removed {m' : Manager}
    (h : Registry accepted m) (hgone : Removed gone m m') : Registry accepted m' := by
  have hmem : ∀ uin ws, ws ∈ m'.socketsOf uin ↔ ws ∈ m.socketsOf uin ∧ ws ∉ gone := by
    intro uin ws
    simp [hgone.sockets]
  -- a map of the sockets stays one
  have hmap : ∀ {α : Type} (f f' : Socket → Option α),
      (∀ ws, f' ws = if ws ∈ gone then none else f ws) →
      (∀ ws, (f ws).isSome ↔ ∃ uin, ws ∈ m.socketsOf uin) → ∀ ws,
      ((f' ws).isSome ↔ ∃ uin, ws ∈ m'.socketsOf uin) := by
    intro α f f' hf' hf ws
    rw [hf']
    by_cases hws : ws ∈ gone
    · simp [hmem, hws]
    · simp [hmem, hws, hf]
  refine ⟨?_, ?_, ?_, ?_, ?_⟩
  · exact fun uin ws hws => h.accepted uin ws ((hmem uin ws).mp hws).1
  · exact hmap m.deviceOf m'.deviceOf hgone.deviceOf h.device
  · exact hmap m.openedAt m'.openedAt hgone.openedAt h.opened
  · intro uin
    rw [hgone.sockets]
    exact (h.nodup uin).filter _
  · intro uin a ha b hb heq
    obtain ⟨ha, hagone⟩ := (hmem uin a).mp ha
    obtain ⟨hb, hbgone⟩ := (hmem uin b).mp hb
    rw [hgone.deviceOf, hgone.deviceOf, if_neg hagone, if_neg hbgone] at heq
    exact h.single uin a ha b hb heq

theorem Sized.removed {m' : Manager} (h : Sized cap m)
    (hgone : Removed gone m m') (hne : ∀ uin, m'.conns uin ≠ some []) : Sized cap m' where
  capped uin := by
    rw [hgone.sockets]
    have hle : ((m.socketsOf uin).filter (· ∉ gone)).length ≤ (m.socketsOf uin).length :=
      length_filter_le _ _
    exact (Int.ofNat_le.mpr hle).trans (h.capped uin)
  nonempty := hne

/-- Sockets that were accepted for one account are in no other account's set. -/
theorem Registry.filter_eq (h : Registry accepted m) (hgone : ∀ ws ∈ gone, accepted ws = some uin) {other : Uin}
    (hne : other ≠ uin) : (m.socketsOf other).filter (· ∉ gone) = m.socketsOf other := by
  refine filter_eq_self.mpr fun ws hws => ?_
  have hnot : ws ∉ gone := by
    intro hmem
    exact hne (Option.some.inj ((h.accepted other ws hws).symm.trans (hgone ws hmem)))
  simpa using hnot

/-- An account whose set becomes what is left of it. -/
theorem Registry.removed_of_update (h : Registry accepted m) (hgone : ∀ ws ∈ gone, accepted ws = some uin)
    (left : Option (List Socket)) (hleft : left.getD [] = (m.socketsOf uin).filter (· ∉ gone)) :
    Removed gone m { m.forget gone with conns := update m.conns uin left } where
  sockets other := by
    by_cases hother : other = uin
    · subst hother
      change (update m.conns other left other).getD [] = _
      rw [update_self]
      exact hleft
    · rw [h.filter_eq hgone hother]
      simp [Manager.socketsOf, update_of_ne hother]
  deviceOf _ := rfl
  openedAt _ := rfl

theorem Registry.removed_discard (h : Registry accepted m) (hgone : ∀ ws ∈ gone, accepted ws = some uin) :
    Removed gone m ((m.forget gone).discard uin gone) := by
  unfold Manager.discard
  have hsockets : (m.forget gone).socketsOf uin = m.socketsOf uin := rfl
  rw [hsockets]
  cases hempty : (m.socketsOf uin).isEmpty with
  | true =>
    have hsame := h.removed_of_update hgone (m.conns uin) (by
      have hnil : m.socketsOf uin = [] := isEmpty_iff.mp hempty
      have hget : (m.conns uin).getD [] = [] := hnil
      rw [hget, hnil]
      rfl)
    rwa [update_eq_self] at hsame
  | false =>
    refine h.removed_of_update hgone _ ?_
    split
    · exact (isEmpty_iff.mp ‹_›).symm
    · rfl

theorem nonempty_discard (hne : ∀ uin, m.conns uin ≠ some []) (other : Uin) :
    ((m.forget gone).discard uin gone).conns other ≠ some [] := by
  unfold Manager.discard
  split
  · exact hne other
  · by_cases hother : other = uin
    · subst hother
      simp only [update_self]
      split
      · exact (Option.some_ne_none []).symm
      · rename_i hleft
        exact fun heq => hleft (isEmpty_iff.mpr (Option.some.inj heq))
    · simp only [update_of_ne hother]
      exact hne other

/-! ## Adding a socket -/

/-- A socket that was not accepted before comes to an account none of whose sockets is of its
device. -/
theorem Registry.added (h : Registry accepted m)
    (hnew : accepted ws = none) {dev : Dev}
    (hdev : ∀ other ∈ m.socketsOf uin, m.deviceOf other ≠ some dev) (now : Time) :
    Registry (update accepted ws (some uin))
      { conns := update m.conns uin (some (ws :: m.socketsOf uin))
        deviceOf := update m.deviceOf ws (some dev)
        openedAt := update m.openedAt ws (some now) } := by
  have hfree : ∀ uin, ws ∉ m.socketsOf uin := by
    intro uin hmem
    exact Option.some_ne_none uin ((h.accepted uin ws hmem).symm.trans hnew)
  have hne : ∀ uin, ∀ other ∈ m.socketsOf uin, other ≠ ws :=
    fun uin other hmem heq => hfree uin (heq ▸ hmem)
  have hsockets : ∀ other, ((update m.conns uin (some (ws :: m.socketsOf uin)) other).getD
      []) = if other = uin then ws :: m.socketsOf uin else m.socketsOf other := by
    intro other
    by_cases hother : other = uin
    · subst hother
      rw [update_self, if_pos rfl]
      rfl
    · rw [update_of_ne hother, if_neg hother]
      rfl
  have hmem : ∀ other x,
      x ∈ ((update m.conns uin (some (ws :: m.socketsOf uin)) other).getD []) ↔
        (other = uin ∧ x = ws) ∨ x ∈ m.socketsOf other := by
    intro other x
    rw [hsockets]
    by_cases hother : other = uin
    · subst hother
      simp
    · simp [hother]
  have hmap : ∀ {α : Type} (f : Socket → Option α) (a : α),
      (∀ x, (f x).isSome ↔ ∃ uin, x ∈ m.socketsOf uin) → ∀ x,
      ((update f ws (some a) x).isSome ↔
        ∃ other, (other = uin ∧ x = ws) ∨ x ∈ m.socketsOf other) := by
    intro α f a hf x
    by_cases hx : x = ws
    · subst hx
      rw [update_self]
      exact iff_of_true rfl ⟨uin, .inl ⟨rfl, rfl⟩⟩
    · simp [hf, hx]
  refine ⟨?_, ?_, ?_, ?_, ?_⟩
  · intro other x hx
    rcases (hmem other x).mp hx with ⟨rfl, rfl⟩ | hx
    · exact update_self _ _ _
    · rw [update_of_ne (hne other x hx)]
      exact h.accepted other x hx
  · intro x
    rw [hmap m.deviceOf dev h.device]
    exact exists_congr fun other => (hmem other x).symm
  · intro x
    rw [hmap m.openedAt now h.opened]
    exact exists_congr fun other => (hmem other x).symm
  · intro other
    change ((update m.conns uin (some (ws :: m.socketsOf uin)) other).getD []).Nodup
    rw [hsockets]
    split
    · exact nodup_cons.mpr ⟨hfree uin, h.nodup uin⟩
    · exact h.nodup other
  · intro other a ha b hb heq
    dsimp only at heq
    rcases (hmem other a).mp ha with ⟨rfl, rfl⟩ | hold
    · rcases (hmem other b).mp hb with ⟨-, rfl⟩ | hold
      · rfl
      · rw [update_self, update_of_ne (hne other b hold)] at heq
        exact absurd heq.symm (hdev b hold)
    · rcases (hmem other b).mp hb with ⟨rfl, rfl⟩ | hold'
      · rw [update_self, update_of_ne (hne other a hold)] at heq
        exact absurd heq (hdev a hold)
      · rw [update_of_ne (hne other a hold),
          update_of_ne (hne other b hold')] at heq
        exact h.single other a hold b hold' heq

/-! ## The ceiling -/

/-- Taking away a beginning of a list leaves the rest of it. -/
theorem filter_notMem_take {l : List Socket} (hl : l.Nodup) (n : ℕ) :
    l.filter (· ∉ l.take n) = l.drop n := by
  have hsplit := take_append_drop n l
  have hdisjoint : ∀ x ∈ l.drop n, x ∉ l.take n := by
    rw [← hsplit, nodup_append] at hl
    exact fun x hdrop htake => hl.2.2 x htake x hdrop rfl
  calc l.filter (· ∉ l.take n)
      = (l.take n).filter (· ∉ l.take n) ++ (l.drop n).filter (· ∉ l.take n) := by
        rw [← filter_append, hsplit]
    _ = [] ++ l.drop n := by
        congr 1
        · exact filter_eq_nil_iff.mpr (by simp)
        · exact filter_eq_self.mpr fun x hx => by simpa using hdisjoint x hx
    _ = l.drop n := nil_append _

/-- The new socket and what is left of the others are within the ceiling, or it is alone. -/
theorem length_surplus_le {others : List Socket} (hnodup : others.Nodup) (hws : ws ∉ others) :
    ((ws :: others.filter (· ∉ m.surplus cap (ws :: others) ws)).length : ℤ) ≤ max 1 cap := by
  have hothers : (ws :: others).filter (· ≠ ws) = others := by
    rw [filter_cons_of_neg (by simp)]
    refine filter_eq_self.mpr fun x hx => ?_
    have hne : x ≠ ws := fun heq => hws (heq ▸ hx)
    simpa using hne
  unfold Manager.surplus
  dsimp only
  split
  · rename_i hover
    rw [hothers]
    generalize hsorted : others.insertionSort
      (fun a b => (m.openedAt a).getD 0 ≤ (m.openedAt b).getD 0) = sorted
    have hperm : sorted.Perm others := hsorted ▸ perm_insertionSort _ others
    -- what is left are the sockets after those that have to go
    have hleft : (others.filter (· ∉ sorted.take ((ws :: others).length - cap).toNat)).length =
        others.length - ((ws :: others).length - cap).toNat := by
      rw [← (hperm.filter _).length_eq, filter_notMem_take (hperm.nodup_iff.mpr hnodup),
        length_drop, hperm.length_eq]
    rw [length_cons, hleft]
    simp only [length_cons] at hover ⊢
    omega
  · rename_i hunder
    simp only [not_mem_nil, not_false_eq_true, decide_true, filter_true]
    exact (Int.not_lt.mp hunder).trans (le_max_right _ _)

theorem notMem_surplus (existing : List Socket) : ws ∉ m.surplus cap existing ws := by
  unfold Manager.surplus
  dsimp only
  split
  · intro hmem
    have hfilter := (mem_insertionSort _).mp (mem_of_mem_take hmem)
    simp at hfilter
  · exact not_mem_nil

/-- A `connect` takes some sockets of the account away, among them all of the same device, and adds the
new one. -/
theorem connect_eq (cap : ℤ) (hnodup : (m.socketsOf uin).Nodup) (hws : ws ∉ m.socketsOf uin)
    (dev : Dev) (now : Time) :
    ∃ gone, (∀ x ∈ gone, x ∈ m.socketsOf uin) ∧
      (∀ x ∈ m.socketsOf uin, m.device x = dev → x ∈ gone) ∧
      ((ws :: (m.socketsOf uin).filter (· ∉ gone)).length : ℤ) ≤ max 1 cap ∧
      m.connect cap uin ws dev now =
        { conns := update m.conns uin (some (ws :: (m.socketsOf uin).filter (· ∉ gone)))
          deviceOf := update (m.forget gone).deviceOf ws (some dev)
          openedAt := update (m.forget gone).openedAt ws (some now) } := by
  let same := (m.socketsOf uin).filter (m.device · = dev)
  let others := (m.socketsOf uin).filter (· ∉ same)
  let extra := (m.forget same).surplus cap (ws :: others) ws
  have hothers : ws ∉ others := fun hmem => hws (mem_filter.mp hmem).1
  have hsub : ∀ x ∈ extra, x ∈ m.socketsOf uin := by
    intro x hx
    change x ∈ (m.forget same).surplus cap (ws :: others) ws at hx
    unfold Manager.surplus at hx
    dsimp only at hx
    split at hx
    · have hfilter := (mem_insertionSort _).mp (mem_of_mem_take hx)
      obtain ⟨hmem, hne⟩ := mem_filter.mp hfilter
      have hold := (mem_cons.mp hmem).resolve_left (by simpa using hne)
      exact (mem_filter.mp hold).1
    · exact absurd hx not_mem_nil
  have hleft : (m.socketsOf uin).filter (· ∉ same ++ extra) = others.filter (· ∉ extra) := by
    rw [filter_filter]
    refine filter_congr fun x _ => ?_
    simp [Bool.and_comm]
  have hnew : (others.insert ws).filter (· ∉ extra) = ws :: others.filter (· ∉ extra) := by
    rw [insert_of_not_mem hothers, filter_cons_of_pos]
    simpa using notMem_surplus (ws :: others)
  refine ⟨same ++ extra, ?_, ?_, ?_, ?_⟩
  · intro x hx
    exact (mem_append.mp hx).elim (fun h => (mem_filter.mp h).1) (hsub x)
  · intro x hx hdev
    exact mem_append_left _ (mem_filter.mpr ⟨hx, by simpa using hdev⟩)
  · rw [hleft]
    exact length_surplus_le (hnodup.filter _) hothers
  · have hforget : ((m.forget same).forget extra) = m.forget (same ++ extra) := by
      unfold Manager.forget
      congr 1
      · funext x
        by_cases hx : x ∈ extra
        · simp [hx]
        · simp [hx]
      · funext x
        by_cases hx : x ∈ extra
        · simp [hx]
        · simp [hx]
    rw [hleft, ← hnew, ← hforget]
    unfold Manager.connect
    dsimp only
    rw [insert_of_not_mem hothers]
    rfl

/-! ## Operations -/

/-- What holds of a worker after every operation. -/
structure Worker.Sound (cap : ℤ) (w : Worker) : Prop where
  registry : Registry w.accepted w.manager
  sized : Sized cap w.manager

theorem Worker.Sound.connect (h : w.Sound cap) (hnew : w.accepted ws = none) (dev : Dev)
    (now : Time) :
    Worker.Sound cap
      { manager := w.manager.connect cap uin ws dev now
        accepted := update w.accepted ws (some uin) } := by
  have hws : ws ∉ w.manager.socketsOf uin := fun hmem =>
    Option.some_ne_none uin ((h.registry.accepted uin ws hmem).symm.trans hnew)
  obtain ⟨gone, hsub, hsame, hle, heq⟩ := connect_eq cap (h.registry.nodup uin) hws dev now
  have hremoved := h.registry.removed_of_update
    (fun x hx => h.registry.accepted uin x (hsub x hx))
    (some ((w.manager.socketsOf uin).filter (· ∉ gone))) rfl
  have hleft := hremoved.sockets uin
  refine ⟨?_, ?_⟩
  · -- no socket of the device is left
    have hdev : ∀ other ∈ (w.manager.socketsOf uin).filter (· ∉ gone),
        (w.manager.forget gone).deviceOf other ≠ some dev := by
      intro other hother hdevice
      obtain ⟨hmem, hnot⟩ := mem_filter.mp hother
      have hnot : other ∉ gone := by simpa using hnot
      have hsome : w.manager.deviceOf other = some dev := (if_neg hnot).symm.trans hdevice
      exact hnot (hsame other hmem (by rw [Manager.device, hsome, Option.getD_some]))
    have hadded := (h.registry.removed hremoved).added hnew (hleft ▸ hdev) now
    rw [hleft] at hadded
    rw [heq]
    simpa using hadded
  · rw [heq]
    refine ⟨fun other => ?_, fun other => ?_⟩
    · by_cases hother : other = uin
      · subst hother
        simpa [Manager.socketsOf] using hle
      · simpa [Manager.socketsOf, update_of_ne hother] using h.sized.capped other
    · by_cases hother : other = uin
      · subst hother
        simp
      · simpa [update_of_ne hother] using h.sized.nonempty other

theorem Worker.Sound.remove (h : w.Sound cap)
    (hgone : ∀ x ∈ gone, w.accepted x = some uin) :
    Worker.Sound cap { w with manager := (w.manager.forget gone).discard uin gone } where
  registry := h.registry.removed (h.registry.removed_discard hgone)
  sized := h.sized.removed (h.registry.removed_discard hgone) (nonempty_discard h.sized.nonempty)

theorem Worker.Sound.closeUin (h : w.Sound cap) (uin : Uin) :
    Worker.Sound cap { w with manager := w.manager.closeUin uin } := by
  have hremoved : Removed (w.manager.socketsOf uin) w.manager (w.manager.closeUin uin) := by
    refine h.registry.removed_of_update (h.registry.accepted uin) _ ?_
    exact (filter_eq_nil_iff.mpr (by simp)).symm
  refine ⟨h.registry.removed hremoved, h.sized.removed hremoved fun other => ?_⟩
  by_cases hother : other = uin
  · subst hother
    simp [Manager.closeUin]
  · simpa [Manager.closeUin, update_of_ne hother] using h.sized.nonempty other

theorem Worker.Sound.rehash (h : w.Sound cap) {order : List Socket}
    (hperm : order.Perm (w.manager.socketsOf uin)) :
    Worker.Sound cap { w with manager := w.manager.rehash uin order } := by
  have hsockets : ∀ other,
      ((w.manager.rehash uin order).socketsOf other).Perm (w.manager.socketsOf other) := by
    intro other
    by_cases hother : other = uin
    · subst hother
      unfold Manager.socketsOf Manager.rehash at *
      dsimp only
      rw [update_self]
      cases hconns : w.manager.conns other with
      | none => exact Perm.refl _
      | some l => simpa [hconns] using hperm
    · unfold Manager.socketsOf Manager.rehash
      dsimp only
      rw [update_of_ne hother]
  have hmem : ∀ other x,
      x ∈ (w.manager.rehash uin order).socketsOf other ↔ x ∈ w.manager.socketsOf other :=
    fun other x => (hsockets other).mem_iff
  refine ⟨⟨?_, ?_, ?_, ?_, ?_⟩, ?_, ?_⟩
  · exact fun other x hx => h.registry.accepted other x ((hmem other x).mp hx)
  · exact fun x => (h.registry.device x).trans (exists_congr fun other => (hmem other x).symm)
  · exact fun x => (h.registry.opened x).trans (exists_congr fun other => (hmem other x).symm)
  · exact fun other => (hsockets other).nodup_iff.mpr (h.registry.nodup other)
  · intro other a ha b hb
    exact h.registry.single other a ((hmem other a).mp ha) b ((hmem other b).mp hb)
  · intro other
    rw [(hsockets other).length_eq]
    exact h.sized.capped other
  · intro other hempty
    -- the set of the account would have been empty before
    have hnil : (w.manager.rehash uin order).socketsOf other = [] := by
      rw [Manager.socketsOf, hempty, Option.getD_some]
    have hbefore : w.manager.socketsOf other = [] := (hnil ▸ hsockets other).nil_eq.symm
    refine h.sized.nonempty other ?_
    cases hconns : w.manager.conns other with
    | some l => exact congrArg some (by simpa [Manager.socketsOf, hconns] using hbefore)
    | none =>
      by_cases hother : other = uin
      · subst hother
        simp [Manager.rehash, hconns] at hempty
      · simp [Manager.rehash, update_of_ne hother, hconns] at hempty

theorem Worker.Sound.step (h : w.Sound cap) (op : Op) : (w.step cap op).Sound cap := by
  cases op with
  | connect uin ws dev now =>
    simp only [Worker.step]
    split
    · exact h
    · exact h.connect (Option.not_isSome_iff_eq_none.mp ‹_›) dev now
  | disconnect ws =>
    simp only [Worker.step]
    split
    · exact h
    · rename_i uin hws
      refine h.remove fun x hx => ?_
      rw [mem_singleton.mp hx]
      exact hws
  | closeDevice uin dev =>
    exact h.remove fun x hx => h.registry.accepted uin x (mem_filter.mp hx).1
  | closeUin uin => exact h.closeUin uin
  | rehash uin order =>
    simp only [Worker.step]
    split
    · exact h.rehash ‹_›
    · exact h

theorem sound_initial : Worker.initial.Sound cap where
  registry :=
    { accepted := nofun
      device := fun _ => iff_of_false Bool.false_ne_true fun ⟨_, h⟩ => absurd h not_mem_nil
      opened := fun _ => iff_of_false Bool.false_ne_true fun ⟨_, h⟩ => absurd h not_mem_nil
      nodup := fun _ => nodup_nil
      single := nofun }
  sized := ⟨fun _ => (Int.zero_le_ofNat 1).trans (le_max_left _ _), fun _ => (Option.some_ne_none _).symm⟩

theorem sound_run (cap : ℤ) (ops : List Op) : (Worker.run cap ops).Sound cap := by
  have hrun : ∀ w : Worker, w.Sound cap → (ops.foldl (Worker.step cap) w).Sound cap := by
    induction ops with
    | nil => exact fun w h => h
    | cons op ops ih => exact fun w h => ih _ (h.step op)
  exact hrun _ sound_initial

theorem run_concat (cap : ℤ) (ops : List Op) (op : Op) :
    Worker.run cap (ops ++ [op]) = (Worker.run cap ops).step cap op := by
  simp [Worker.run]

/-- A socket that is accepted is registered. -/
theorem mem_socketsOf_connect (h : w.Sound cap) (hnew : w.accepted ws = none) (dev : Dev)
    (now : Time) : ws ∈ (w.step cap (.connect uin ws dev now)).manager.socketsOf uin := by
  have hws : ws ∉ w.manager.socketsOf uin := fun hmem =>
    Option.some_ne_none uin ((h.registry.accepted uin ws hmem).symm.trans hnew)
  obtain ⟨gone, -, -, -, heq⟩ := connect_eq cap (h.registry.nodup uin) hws dev now
  simp [Worker.step, hnew, heq, Manager.socketsOf]

/-- **The maps agree.**  After every sequence of operations on the manager of a worker, its three maps
are about the same sockets, each of one account; a device of an account has at most one socket; an
account has at most `_MAX_SOCKETS_PER_UIN` sockets, or just one if that is less than one; no account
has an empty set; and the socket that is accepted next is registered. -/
theorem maps_agree (cap : ℤ) (ops : List Op) :
    let w := Worker.run cap ops
    (∀ ws, (w.manager.deviceOf ws).isSome ↔ ∃ uin, ws ∈ w.manager.socketsOf uin) ∧
      (∀ ws, (w.manager.openedAt ws).isSome ↔ ∃ uin, ws ∈ w.manager.socketsOf uin) ∧
      (∀ uin uin' ws, ws ∈ w.manager.socketsOf uin → ws ∈ w.manager.socketsOf uin' → uin = uin') ∧
      (∀ uin, (w.manager.socketsOf uin).Nodup) ∧
      (∀ uin dev, ∀ a ∈ w.manager.socketsOf uin, ∀ b ∈ w.manager.socketsOf uin,
        w.manager.deviceOf a = some dev → w.manager.deviceOf b = some dev → a = b) ∧
      (∀ uin, ((w.manager.socketsOf uin).length : ℤ) ≤ max 1 cap) ∧
      (∀ uin, w.manager.conns uin ≠ some []) ∧
      ∀ uin ws dev now, w.accepted ws = none →
        ws ∈ (Worker.run cap (ops ++ [.connect uin ws dev now])).manager.socketsOf uin := by
  have h := sound_run cap ops
  refine ⟨h.registry.device, h.registry.opened, ?_, h.registry.nodup, ?_, h.sized.capped,
    h.sized.nonempty, ?_⟩
  · intro uin uin' ws hws hws'
    exact Option.some.inj
      ((h.registry.accepted uin ws hws).symm.trans (h.registry.accepted uin' ws hws'))
  · intro uin dev a ha b hb hdev hdev'
    exact h.registry.single uin a ha b hb (hdev.trans hdev'.symm)
  · intro uin ws dev now hnew
    rw [run_concat]
    exact mem_socketsOf_connect h hnew dev now

/-- With a ceiling of two, a phone, a laptop and again the phone; then a tablet, for which the laptop
has to go.  The first socket of the phone comes to its end only now. -/
def crowded : List Op :=
  [.connect 1 0 primary 0, .connect 1 1 ['l'] 1, .connect 1 2 primary 2, .rehash 1 [1, 2],
    .connect 1 3 ['t'] 3, .disconnect 0]

theorem maps_agree_crowded :
    (Worker.run 2 crowded).manager.socketsOf 1 = [3, 2] ∧
      (((Worker.run 2 crowded).manager.socketsOf 1).length : ℤ) ≤ max 1 2 ∧
      4 ∈ (Worker.run 2 (crowded ++ [.connect 1 4 ['x'] 4])).manager.socketsOf 1 :=
  have h := maps_agree 2 crowded
  ⟨by decide, h.2.2.2.2.2.1 1, h.2.2.2.2.2.2.2 1 4 ['x'] 4 rfl⟩

/-- A ceiling of zero does not keep the only socket of an account out. -/
theorem one_socket_over_ceiling :
    (Worker.run 0 [.connect 1 0 primary 0]).manager.socketsOf 1 = [0] ∧
      ¬(((Worker.run 0 [.connect 1 0 primary 0]).manager.socketsOf 1).length : ℤ) ≤ 0 := by
  decide

end RcqServer.Connections
