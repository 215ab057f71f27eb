import RcqServer.ReadCommitted.Program
import Mathlib.Data.List.AList
import Mathlib.Data.Finset.Card

/-!
# Tables

A table of a relational store: rows under a primary key, each key at most once.  Beside lookup
and single-row writes there are the two statements that touch many rows at once, a selection and
an `UPDATE`/`DELETE … WHERE`, the latter given by the row writes it makes (`Table.changes`).
-/

namespace ReadCommitted

/-- Rows of type `ν` under a primary key of type `κ`. -/
def Table (κ ν : Type) : Type := AList fun _ : κ => ν

namespace Table

variable {κ ν : Type} [DecidableEq κ]

instance : EmptyCollection (Table κ ν) := ⟨(∅ : AList fun _ : κ => ν)⟩

/-- The row under a key. -/
def get (t : Table κ ν) (k : κ) : Option ν := AList.lookup k t

/-- Write one row: insert or overwrite with `some`, delete with `none`. -/
def set (t : Table κ ν) (k : κ) : Option ν → Table κ ν
  | some v => AList.insert k v t
  | none => AList.erase k t

/-- All rows with their keys. -/
def rows (t : Table κ ν) : List (κ × ν) := t.entries.map fun e => (e.1, e.2)

/-- The rows that satisfy a condition. -/
def select (t : Table κ ν) (p : κ → ν → Bool) : List (κ × ν) := t.rows.filter fun r => p r.1 r.2

/-- The keys of the rows that satisfy a condition. -/
def keysWhere (t : Table κ ν) (p : κ → ν → Bool) : Finset κ :=
  ((t.select p).map Prod.fst).toFinset

@[simp] theorem get_empty (k : κ) : (∅ : Table κ ν).get k = none := rfl

theorem get_set (t : Table κ ν) (k k' : κ) (v : Option ν) :
    (t.set k v).get k' = if k' = k then v else t.get k' := by
  by_cases hk : k' = k
  · subst hk
    cases v with
    | none => simpa [set, get] using AList.lookup_erase k' t
    | some v => simpa [set, get] using AList.lookup_insert t
  · rw [if_neg hk]
    cases v with
    | none => exact AList.lookup_erase_ne hk
    | some v => exact AList.lookup_insert_ne hk

@[simp] theorem get_set_self (t : Table κ ν) (k : κ) (v : Option ν) : (t.set k v).get k = v := by
  simp [get_set]

variable {k : κ} {t : Table κ ν}

theorem get_set_ne (t : Table κ ν) {k' : κ} (hk : k' ≠ k) (v : Option ν) :
    (t.set k v).get k' = t.get k' := by
  simp [get_set, hk]

/-- A row of a table after one row was written. -/
theorem get_set_some {k' : κ} {v v' : ν} (h : (t.set k (some v)).get k' = some v') :
    (k' = k ∧ v' = v) ∨ k' ≠ k ∧ t.get k' = some v' := by
  rw [get_set] at h
  split at h
  · exact .inl ⟨‹_›, (Option.some.inj h).symm⟩
  · exact .inr ⟨‹_›, h⟩

@[simp] theorem mem_rows {v : ν} : (k, v) ∈ t.rows ↔ t.get k = some v := by
  have hlookup : t.get k = some v ↔ (⟨k, v⟩ : Sigma fun _ : κ => ν) ∈ t.entries :=
    AList.mem_lookup_iff
  rw [hlookup, rows, List.mem_map]
  constructor
  · rintro ⟨⟨k', v'⟩, hmem, heq⟩
    cases heq
    exact hmem
  · exact fun hmem => ⟨⟨k, v⟩, hmem, rfl⟩

@[simp] theorem mem_select {p : κ → ν → Bool} {v : ν} :
    (k, v) ∈ t.select p ↔ t.get k = some v ∧ p k v := by
  simp [select]

theorem mem_keysWhere {p : κ → ν → Bool} : k ∈ t.keysWhere p ↔ ∃ v, t.get k = some v ∧ p k v := by
  simp [keysWhere]

omit [DecidableEq κ] in
theorem rows_keys_nodup (t : Table κ ν) : (t.rows.map Prod.fst).Nodup := by
  have heq : t.rows.map Prod.fst = t.entries.keys := by
    simp [rows, List.keys]
  rw [heq]
  exact AList.keys_nodup t

omit [DecidableEq κ] in
theorem select_keys_nodup (t : Table κ ν) (p : κ → ν → Bool) : ((t.select p).map Prod.fst).Nodup :=
  (List.filter_sublist.map _).nodup t.rows_keys_nodup

/-! ## Many rows at once -/

/-- The row writes of `UPDATE … WHERE` and `DELETE … WHERE`: `f` gives the new row, or `none`
for a row that the statement leaves alone. -/
def changes (t : Table κ ν) (f : κ → ν → Option (Option ν)) : List (κ × Option ν) :=
  t.rows.filterMap fun r => (f r.1 r.2).map fun v => (r.1, v)

/-- Write many rows, one after the other. -/
def setMany (t : Table κ ν) (l : List (κ × Option ν)) : Table κ ν :=
  l.foldl (fun t p => t.set p.1 p.2) t

theorem mem_changes {f : κ → ν → Option (Option ν)} {v : Option ν} :
    (k, v) ∈ t.changes f ↔ ∃ old, t.get k = some old ∧ f k old = some v := by
  simp only [changes, List.mem_filterMap, Option.map_eq_some_iff, Prod.mk.injEq]
  constructor
  · rintro ⟨⟨k', old⟩, hmem, v', hf, rfl, rfl⟩
    exact ⟨old, mem_rows.mp hmem, hf⟩
  · rintro ⟨old, hget, hf⟩
    exact ⟨(k, old), mem_rows.mpr hget, v, hf, rfl, rfl⟩

theorem get_setMany_of_notMem (t : Table κ ν) {l : List (κ × Option ν)}
    (hk : k ∉ l.map Prod.fst) : (t.setMany l).get k = t.get k := by
  induction l generalizing t with
  | nil => rfl
  | cons p l ih =>
    simp only [List.map_cons, List.mem_cons, not_or] at hk
    exact (ih _ hk.2).trans (get_set_ne t hk.1 p.2)

theorem get_setMany_of_mem (t : Table κ ν) {l : List (κ × Option ν)} {v : Option ν}
    (hnodup : (l.map Prod.fst).Nodup) (hmem : (k, v) ∈ l) : (t.setMany l).get k = v := by
  induction l generalizing t with
  | nil => cases hmem
  | cons p l ih =>
    rw [List.map_cons, List.nodup_cons] at hnodup
    rcases List.mem_cons.mp hmem with rfl | hmem
    · exact (get_setMany_of_notMem _ hnodup.1).trans (get_set_self t k v)
    · exact ih _ hnodup.2 hmem

/-- The copy of the rows that satisfy a condition. -/
theorem get_setMany_select (t : Table κ ν) (p : κ → ν → Bool) (k : κ) :
    ((∅ : Table κ ν).setMany ((t.select p).map fun r => (r.1, some r.2))).get k =
      (t.get k).filter (p k) := by
  have hkeys : ((t.select p).map fun r => (r.1, some r.2)).map Prod.fst =
      (t.select p).map Prod.fst := by simp
  cases hrow : (t.get k).filter (p k) with
  | some v =>
    obtain ⟨hget, hp⟩ := Option.filter_eq_some_iff.mp hrow
    refine get_setMany_of_mem _ (hkeys ▸ t.select_keys_nodup p) ?_
    exact List.mem_map.mpr ⟨(k, v), mem_select.mpr ⟨hget, hp⟩, rfl⟩
  | none =>
    refine get_setMany_of_notMem _ ?_
    rw [hkeys, List.mem_map]
    rintro ⟨⟨k', v⟩, hmem, rfl⟩
    obtain ⟨hget, hp⟩ := mem_select.mp hmem
    simp [hget, hp] at hrow

omit [DecidableEq κ] in
theorem changes_keys_nodup (t : Table κ ν) (f : κ → ν → Option (Option ν)) :
    ((t.changes f).map Prod.fst).Nodup := by
  have hsub : ((t.changes f).map Prod.fst).Sublist (t.rows.map Prod.fst) := by
    rw [changes]
    induction t.rows with
    | nil => exact List.Sublist.slnil
    | cons r rows ih =>
      rw [List.filterMap_cons]
      cases f r.1 r.2 with
      | none => exact ih.cons _
      | some v => exact ih.cons_cons _
  exact hsub.nodup t.rows_keys_nodup

/-- `UPDATE`/`DELETE … WHERE`, row by row. -/
theorem get_setMany_changes (t : Table κ ν) (f : κ → ν → Option (Option ν)) (k : κ) :
    (t.setMany (t.changes f)).get k = (t.get k).bind fun v => (f k v).getD (some v) := by
  by_cases hk : k ∈ (t.changes f).map Prod.fst
  · obtain ⟨⟨k', v⟩, hmem, rfl⟩ := List.mem_map.mp hk
    obtain ⟨old, hget, hf⟩ := mem_changes.mp hmem
    rw [get_setMany_of_mem t (changes_keys_nodup t f) hmem, hget]
    simp [hf]
  · rw [get_setMany_of_notMem t hk]
    cases hget : t.get k with
    | none => rfl
    | some old =>
      cases hf : f k old with
      | none => simp [hf]
      | some v =>
        exact absurd (List.mem_map.mpr ⟨(k, v), mem_changes.mpr ⟨old, hget, hf⟩, rfl⟩) hk

end Table

/-! ## Reading a table through pending writes -/

section Writes

variable {σ ω ι κ ν τ : Type} [Store σ ω ι]

/-- A component of the database that no write of the list touches. -/
theorem applyAll_eq_of_forall (f : σ → τ) {ws : List ω} (db : σ)
    (hkeep : ∀ w ∈ ws, ∀ d, f (Store.apply w d) = f d) : f (applyAll ws db) = f db :=
  applyAll_inv (P := fun d => f d = f db) rfl fun w hw d hd => (hkeep w hw d).trans hd

variable [DecidableEq κ]

/-- The writes `mk k v` set row `k` of the table, and no other write touches it. -/
structure Sets (table : σ → Table κ ν) (mk : κ → Option ν → ω) : Prop where
  set : ∀ k v db, table (Store.apply (mk k v) db) = (table db).set k v := by
    intros
    rfl
  other : ∀ w, (∀ k v, w ≠ mk k v) → ∀ db : σ, table (Store.apply w db) = table db := by
    intro w hw db
    cases w <;> first | rfl | exact absurd rfl (hw _ _)

variable {table : σ → Table κ ν} {mk : κ → Option ν → ω}

/-- A row is, after some writes, what it was before or what one of the writes made it. -/
theorem Sets.get_applyAll (h : Sets table mk) (ws : List ω) (db : σ) (k : κ) :
    (table (applyAll ws db)).get k = (table db).get k ∨
      mk k ((table (applyAll ws db)).get k) ∈ ws := by
  induction ws generalizing db with
  | nil => exact .inl rfl
  | cons w ws ih =>
    rw [applyAll_cons]
    rcases ih (Store.apply w db) with hsame | hmem
    · by_cases hw : ∃ v, w = mk k v
      · obtain ⟨v, rfl⟩ := hw
        rw [hsame, h.set, Table.get_set_self]
        exact .inr List.mem_cons_self
      · left
        rw [hsame]
        by_cases hw' : ∃ k' v, w = mk k' v
        · obtain ⟨k', v, rfl⟩ := hw'
          rw [h.set, Table.get_set_ne]
          rintro rfl
          exact hw ⟨v, rfl⟩
        · rw [h.other w fun k v heq => hw' ⟨k, v, heq⟩]
    · exact .inr (List.mem_cons_of_mem _ hmem)

/-- What some writes make of a row depends on that row only. -/
theorem Sets.get_applyAll_congr (h : Sets table mk) (ws : List ω) {db db' : σ} {k : κ}
    (hrow : (table db').get k = (table db).get k) :
    (table (applyAll ws db')).get k = (table (applyAll ws db)).get k := by
  induction ws generalizing db db' with
  | nil => exact hrow
  | cons w ws ih =>
    rw [applyAll_cons, applyAll_cons]
    refine ih ?_
    by_cases hw : ∃ k' v, w = mk k' v
    · obtain ⟨k', v, rfl⟩ := hw
      rw [h.set, h.set, Table.get_set, Table.get_set, hrow]
    · have hother : ∀ k v, w ≠ mk k v := fun k v heq => hw ⟨k, v, heq⟩
      rw [h.other w hother, h.other w hother, hrow]

/-- A row that some write of the list sets is what one of them makes it. -/
theorem Sets.get_applyAll_of_mem (h : Sets table mk) {ws : List ω} {k : κ} {v : Option ν}
    (hmem : mk k v ∈ ws) (db : σ) : mk k ((table (applyAll ws db)).get k) ∈ ws := by
  obtain ⟨before, after, rfl⟩ := List.append_of_mem hmem
  rw [applyAll_append, applyAll_cons]
  rcases h.get_applyAll after (Store.apply (mk k v) (applyAll before db)) k with hsame | hlater
  · rw [hsame, h.set, Table.get_set_self]
    exact hmem
  · exact List.mem_append_right _ (List.mem_cons_of_mem _ hlater)

/-- The row writes of a statement that touches many rows. -/
theorem Sets.applyAll_map (h : Sets table mk) (l : List (κ × Option ν)) (db : σ) :
    table (applyAll (l.map fun c => mk c.1 c.2) db) = (table db).setMany l := by
  induction l generalizing db with
  | nil => rfl
  | cons c l ih =>
    rw [List.map_cons, applyAll_cons, ih, h.set]
    rfl

/-- A row that no write of the list sets. -/
theorem Sets.get_applyAll_of_notMem (h : Sets table mk) {ws : List ω} {k : κ}
    (hnone : ∀ v, mk k v ∉ ws) (db : σ) : (table (applyAll ws db)).get k = (table db).get k :=
  (h.get_applyAll ws db k).resolve_right (hnone _)

end Writes

end ReadCommitted
