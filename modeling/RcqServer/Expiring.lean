import Mathlib.Data.Option.Basic
import Mathlib.Data.Nat.Basic

/-!
# Keys that expire

A key of a store with expiry times: a value, and the time from which on the key counts as absent, if
it has one.  Commands come in two kinds: those that change the value and leave the expiry alone
(`alter`), and the one that sets the expiry of a key that is there (`expire`).

`Keeps P t k` says that the key has a value with `P` and will not be gone before `t`; `Only R k` says
that whatever is stored under the key, value and expiry are as `R` says.
-/

namespace Expiring

open Option

variable {α : Type*}

structure Entry (α : Type*) where
  value : α
  expires : Option ℕ

/-- The entry has not expired. -/
def Entry.alive (now : ℕ) (x : Entry α) : Bool := x.expires.all (now < ·)

/-- The entry under a key, unless it has expired. -/
def find (now : ℕ) (k : Option (Entry α)) : Option (Entry α) := k.filter (·.alive now)

/-- The value under a key. -/
def read (now : ℕ) (k : Option (Entry α)) : Option α := (find now k).map Entry.value

/-- A command that changes the value.  A key that it creates has no expiry. -/
def alter (now : ℕ) (f : Option α → Option α) (k : Option (Entry α)) : Option (Entry α) :=
  match find now k with
  | some x => (f (some x.value)).map fun v => ⟨v, x.expires⟩
  | none => (f none).map fun v => ⟨v, none⟩

/-- `EXPIRE`: a key that is there lives for another `ttl`. -/
def expire (now ttl : ℕ) (k : Option (Entry α)) : Option (Entry α) :=
  (find now k).map fun x => { x with expires := some (now + ttl) }

@[simp] theorem read_none (now : ℕ) : read now (none : Option (Entry α)) = none := rfl

theorem alive_of_find {now : ℕ} {k : Option (Entry α)} {x : Entry α} (h : find now k = some x) :
    x.alive now := by
  have hfilter : k.filter (·.alive now) = some x := h
  exact (filter_eq_some_iff.mp hfilter).2

theorem find_of_alive {now : ℕ} {x : Entry α} (h : x.alive now) : find now (some x) = some x :=
  filter_eq_some_iff.mpr ⟨rfl, h⟩

/-- What a key holds later it holds now, if nobody changes it. -/
theorem read_of_later {now later : ℕ} (hle : now ≤ later) {k : Option (Entry α)} {v : α}
    (h : read later k = some v) : read now k = some v := by
  obtain ⟨x, hfind, rfl⟩ := map_eq_some_iff.mp h
  obtain ⟨hk, halive⟩ := filter_eq_some_iff.mp hfind
  have hnow : x.alive now := by
    cases hy : x.expires with
    | none => simp [Entry.alive, hy]
    | some y =>
      have hlater : later < y := by simpa [Entry.alive, hy] using halive
      simpa [Entry.alive, hy] using Nat.lt_of_le_of_lt hle hlater
  rw [read, hk, find_of_alive hnow]
  rfl

/-- Looking a key up now loses nothing that is there later. -/
theorem find_find {now later : ℕ} (hle : now ≤ later) (k : Option (Entry α)) :
    find later (find now k) = find later k := by
  cases k with
  | none => rfl
  | some x =>
    cases hnow : x.alive now with
    | true => rw [find_of_alive hnow]
    | false =>
      have hlater : x.alive later = false := by
        cases hy : x.expires with
        | none => simp [Entry.alive, hy] at hnow
        | some y =>
          have hgone : y ≤ now := by simpa [Entry.alive, hy] using hnow
          simpa [Entry.alive, hy] using Nat.le_trans hgone hle
      simp [find, Option.filter, hnow, hlater]

/-! ## Commands only see what has not expired -/

section Congr

variable {now : ℕ} {k k' : Option (Entry α)}

theorem read_congr (h : find now k = find now k') : read now k = read now k' := by
  unfold read
  rw [h]

theorem alter_congr (h : find now k = find now k') (f : Option α → Option α) :
    alter now f k = alter now f k' := by
  unfold alter
  rw [h]

theorem expire_congr (h : find now k = find now k') (ttl : ℕ) :
    expire now ttl k = expire now ttl k' := by
  unfold expire
  rw [h]

theorem find_congr {later : ℕ} (hle : now ≤ later) (h : find now k = find now k') :
    find later k = find later k' := by
  rw [← find_find hle k, h, find_find hle]

end Congr

theorem read_alter (now : ℕ) (f : Option α → Option α) (k : Option (Entry α)) :
    read now (alter now f k) = f (read now k) := by
  -- what is stored has the expiry of what was found, or none
  have hstored : ∀ (v : Option α) (t : Option ℕ), t.all (now < ·) →
      read now (v.map fun v => (⟨v, t⟩ : Entry α)) = v := by
    intro v t ht
    cases v with
    | none => rfl
    | some v =>
      rw [map_some, read, find_of_alive (x := ⟨v, t⟩) ht]
      rfl
  unfold alter read
  cases hfind : find now k with
  | none => exact hstored (f none) none rfl
  | some x => exact hstored (f (some x.value)) x.expires (alive_of_find hfind)

theorem read_expire {now ttl : ℕ} (httl : 0 < ttl) (k : Option (Entry α)) :
    read now (expire now ttl k) = read now k := by
  unfold expire read
  cases hfind : find now k with
  | none => rfl
  | some x =>
    have halive : Entry.alive now { x with expires := some (now + ttl) } := by
      simpa [Entry.alive] using httl
    rw [map_some, find_of_alive halive]
    rfl

/-! ## What a key holds for some time to come -/

/-- The key has a value with `P`, and does not expire before `t`. -/
def Keeps (P : α → Prop) (t : ℕ) (k : Option (Entry α)) : Prop :=
  ∃ x ∈ k, P x.value ∧ ∀ y ∈ x.expires, t ≤ y

variable {P : α → Prop} {now t : ℕ} {k : Option (Entry α)}

theorem Keeps.find (h : Keeps P t k) (hnow : now < t) :
    ∃ x, find now k = some x ∧ P x.value ∧ ∀ y ∈ x.expires, t ≤ y := by
  obtain ⟨x, hx, hP, hexp⟩ := h
  refine ⟨x, ?_, hP, hexp⟩
  rw [mem_def.mp hx]
  refine find_of_alive ?_
  cases hy : x.expires with
  | none => simp [Entry.alive, hy]
  | some y =>
    have hty : t ≤ y := hexp y hy
    simpa [Entry.alive, hy] using Nat.lt_of_lt_of_le hnow hty

theorem Keeps.read (h : Keeps P t k) (hnow : now < t) : ∃ v, read now k = some v ∧ P v := by
  obtain ⟨x, hfind, hP, -⟩ := h.find hnow
  exact ⟨x.value, by rw [Expiring.read, hfind, map_some], hP⟩

/-- A command that respects `P` leaves it in place. -/
theorem Keeps.alter (h : Keeps P t k) (hnow : now < t) {f : Option α → Option α} {Q : α → Prop}
    (hf : ∀ v, P v → ∃ v' ∈ f (some v), Q v') : Keeps Q t (alter now f k) := by
  obtain ⟨x, hfind, hP, hexp⟩ := h.find hnow
  obtain ⟨v, hv, hQ⟩ := hf x.value hP
  refine ⟨⟨v, x.expires⟩, ?_, hQ, hexp⟩
  rw [Expiring.alter, hfind]
  simp [mem_def.mp hv]

/-- What is there when its expiry is set stays for that long. -/
theorem keeps_expire {v : α} (hread : read now k = some v) (hP : P v) (ttl : ℕ) :
    Keeps P (now + ttl) (expire now ttl k) := by
  unfold read at hread
  cases hfind : find now k with
  | none =>
    rw [hfind] at hread
    cases hread
  | some x =>
    rw [hfind, map_some, some.injEq] at hread
    subst hread
    refine ⟨{ x with expires := some (now + ttl) }, ?_, hP, ?_⟩
    · rw [Expiring.expire, hfind]
      rfl
    · intro y hy
      obtain rfl : now + ttl = y := some.inj hy
      exact le_rfl

theorem Keeps.mono {t' : ℕ} (h : Keeps P t k) (hle : t' ≤ t) : Keeps P t' k := by
  obtain ⟨x, hx, hP, hexp⟩ := h
  exact ⟨x, hx, hP, fun y hy => Nat.le_trans hle (hexp y hy)⟩

theorem Keeps.expire (h : Keeps P t k) (hnow : now < t) {ttl : ℕ} (hle : t ≤ now + ttl) :
    Keeps P t (expire now ttl k) := by
  obtain ⟨v, hread, hP⟩ := h.read hnow
  exact (keeps_expire hread hP ttl).mono hle

/-! ## What a key can hold at most -/

/-- The value and the expiry of the key, if it has any, are as `R` says. -/
def Only (R : α → Option ℕ → Prop) (k : Option (Entry α)) : Prop :=
  ∀ x ∈ k, R x.value x.expires

variable {R : α → Option ℕ → Prop}

theorem Only.of_find (h : Only R k) {x : Entry α} (hfind : find now k = some x) :
    R x.value x.expires := by
  have hfilter : k.filter (·.alive now) = some x := hfind
  exact h x (filter_eq_some_iff.mp hfilter).1

theorem Only.imp {R' : α → Option ℕ → Prop} (h : Only R k) (hR : ∀ v t, R v t → R' v t) :
    Only R' k :=
  fun x hx => hR _ _ (h x hx)

theorem Only.alter (h : Only R k) {f : Option α → Option α}
    (hsome : ∀ v t, R v t → ∀ v' ∈ f (some v), R v' t) (hnone : ∀ v' ∈ f none, R v' none) :
    Only R (alter now f k) := by
  intro x hx
  unfold Expiring.alter at hx
  cases hfind : find now k with
  | none =>
    rw [hfind] at hx
    obtain ⟨v, hv, rfl⟩ := map_eq_some_iff.mp hx
    exact hnone v hv
  | some y =>
    rw [hfind] at hx
    obtain ⟨v, hv, rfl⟩ := map_eq_some_iff.mp hx
    exact hsome y.value y.expires (h.of_find hfind) v hv

theorem only_expire {ttl : ℕ} (h : ∀ v ∈ read now k, R v (some (now + ttl))) :
    Only R (expire now ttl k) := by
  intro x hx
  obtain ⟨y, hfind, rfl⟩ := map_eq_some_iff.mp hx
  exact h y.value (map_eq_some_iff.mpr ⟨y, hfind, rfl⟩)

end Expiring
