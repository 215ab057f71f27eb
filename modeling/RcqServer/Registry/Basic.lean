import Mathlib.Data.Set.Card

/-!
# Registries of names

What a service that hands out names is about, apart from how it stores it: which names are in use
by an account, who owns a name, and who offers one for sale.  An account is the name it uses, so an
account that takes another name has to take along what it owns and offers (`Registry.move`), and
may be let keep the name it leaves if that name is scarce.

`Registry.Sound` is what makes a sale safe: a name in use is nobody else's, and a name on offer is
owned by whoever offers it and not in use.  `Registry.Peopled` says that owners exist.  Every
operation keeps both under its own precondition, and only `Registry.release` and `Registry.leave`
let go of a scarce name.
-/

/-- Names in use, the owner of a name, and who offers it for sale. -/
@[ext] structure Registry (ν : Type) where
  inUse : Set ν
  owner : ν → Option ν
  seller : ν → Option ν

namespace Registry

open Option Function

variable {ν : Type} [DecidableEq ν] {R : Registry ν} {n a b : ν}

/-! ## Operations -/

/-- Nobody has the name. -/
def Free (R : Registry ν) (n : ν) : Prop := n ∉ R.inUse ∧ R.owner n = none

/-- An account comes in under the name. -/
def enter (R : Registry ν) (n : ν) : Registry ν :=
  { R with inUse := insert n R.inUse }

/-- The name becomes the property of `a`. -/
def give (R : Registry ν) (n a : ν) : Registry ν :=
  { R with owner := update R.owner n (some a) }

/-- The name goes on sale. -/
def offer (R : Registry ν) (n a : ν) : Registry ν :=
  { R with seller := update R.seller n (some a) }

/-- The name is not on sale any more. -/
def withdraw (R : Registry ν) (n : ν) : Registry ν :=
  { R with seller := update R.seller n none }

/-- The name is nobody's property any more. -/
def release (R : Registry ν) (n : ν) : Registry ν :=
  { R with owner := update R.owner n none }

/-- The name is sold to `b`. -/
def sell (R : Registry ν) (n b : ν) : Registry ν :=
  (R.give n b).withdraw n

/-- The account goes, with all that it owns and offers. -/
def leave (R : Registry ν) (a : ν) : Registry ν where
  inUse := R.inUse \ {a}
  owner n := (R.owner n).filter (· ≠ a)
  seller n := (R.seller n).filter (· ≠ a)

/-- `b` in the place of `a`. -/
def rekey (a b : ν) (o : Option ν) : Option ν :=
  o.map fun c => if c = a then b else c

/-- The account moves from the name `a` to the name `b`.  A scarce name that nobody owns becomes
its property when it leaves it. -/
def move (scarce : ν → Prop) [DecidablePred scarce] (R : Registry ν) (a b : ν) : Registry ν where
  inUse := insert b R.inUse \ {a}
  owner n := if n = a ∧ R.owner n = none ∧ scarce n then some b else rekey a b (R.owner n)
  seller n := rekey a b (R.seller n)

/-- The names that `a` owns beside the one it answers as. -/
def holdings (R : Registry ν) (a : ν) : Set ν := {n | R.owner n = some a ∧ n ≠ a}

omit [DecidableEq ν] in
theorem enter_of_mem (hn : n ∈ R.inUse) : R.enter n = R :=
  Registry.ext (Set.insert_eq_of_mem hn) rfl rfl

@[simp] theorem rekey_none : rekey a b none = none := rfl

theorem rekey_some {c : ν} : rekey a b (some c) = some (if c = a then b else c) := rfl

theorem rekey_self : rekey a b (some a) = some b := by simp [rekey]

theorem rekey_ne {c : ν} (hc : c ≠ a) : rekey a b (some c) = some c := by simp [rekey, hc]

/-- A move in steps: the new name comes in, what is owned and offered is re-keyed, a scarce name is
kept, and the old name goes. -/
theorem move_eq_steps (scarce : ν → Prop) [DecidablePred scarce] (R : Registry ν) (a b : ν)
    {R' : Registry ν} (hR' : R' = { R.enter b with
      owner := fun n => rekey a b (R.owner n), seller := fun n => rekey a b (R.seller n) }) :
    { (if R'.owner a = none ∧ scarce a then R'.give a b else R') with
      inUse := (if R'.owner a = none ∧ scarce a then R'.give a b else R').inUse \ {a} } =
      R.move scarce a b := by
  have howner : R'.owner a = none ↔ R.owner a = none := by
    rw [hR']
    exact map_eq_none_iff
  simp only [howner]
  refine Registry.ext ?_ (funext fun n => ?_) ?_
  · subst hR'
    split
    · rfl
    · rfl
  · by_cases hkept : R.owner a = none ∧ scarce a
    · rw [if_pos hkept]
      by_cases hn : n = a
      · subst hn
        simp [give, move, hkept.1, hkept.2]
      · simp [give, move, hn, hR']
    · rw [if_neg hkept]
      by_cases hn : n = a
      · subst hn
        simp [move, hkept, hR']
      · simp [move, hn, hR']
  · subst hR'
    split
    · rfl
    · rfl

/-! ## Soundness -/

/-- The state of things that makes a sale safe. -/
structure Sound (R : Registry ν) : Prop where
  /-- A name in use is nobody else's property. -/
  active : ∀ n ∈ R.inUse, ∀ a, R.owner n = some a → a = n
  /-- A name on offer is owned by whoever offers it, who answers as another name. -/
  offered : ∀ n a, R.seller n = some a → R.owner n = some a ∧ a ≠ n

omit [DecidableEq ν] in
theorem ne_of_seller {m : ν} (hn : R.seller n = none) (hm : R.seller m = some a) : m ≠ n := by
  rintro rfl
  rw [hn] at hm
  cases hm

omit [DecidableEq ν] in
theorem Sound.seller_of_free (h : R.Sound) (hfree : R.Free n) : R.seller n = none := by
  cases hs : R.seller n with
  | none => rfl
  | some a =>
    have howner := (h.offered n a hs).1
    rw [hfree.2] at howner
    cases howner

omit [DecidableEq ν] in
/-- A name in use is not on offer. -/
theorem Sound.seller_of_inUse (h : R.Sound) (hn : n ∈ R.inUse) : R.seller n = none := by
  cases hs : R.seller n with
  | none => rfl
  | some a =>
    obtain ⟨howner, hne⟩ := h.offered n a hs
    exact absurd (h.active n hn a howner) hne

omit [DecidableEq ν] in
theorem Sound.enter (h : R.Sound) (hfree : R.Free n) : (R.enter n).Sound where
  active := by
    rintro m (rfl | hm) a ha
    · have hnone : R.owner m = some a := ha
      rw [hfree.2] at hnone
      cases hnone
    · exact h.active m hm a ha
  offered := h.offered

/-- A name that is not in use and not on offer may be given to anybody. -/
theorem Sound.give (h : R.Sound) (hn : n ∉ R.inUse) (hseller : R.seller n = none) :
    (R.give n a).Sound where
  active := by
    intro m hm c hc
    have hne : m ≠ n := fun heq => hn (heq ▸ hm)
    have howner : R.owner m = some c := by simpa [Registry.give, hne] using hc
    exact h.active m hm c howner
  offered := by
    intro m c hc
    have hne : m ≠ n := ne_of_seller hseller hc
    obtain ⟨howner, hc⟩ := h.offered m c hc
    exact ⟨by simpa [Registry.give, hne] using howner, hc⟩

theorem Sound.withdraw (h : R.Sound) : (R.withdraw n).Sound where
  active := h.active
  offered := by
    intro m c hc
    by_cases hm : m = n
    · subst hm
      simp [Registry.withdraw] at hc
    · exact h.offered m c (by simpa [Registry.withdraw, hm] using hc)

theorem Sound.sell (h : R.Sound) (hn : n ∉ R.inUse) : (R.sell n b).Sound := by
  have hgiven : ((R.withdraw n).give n b).Sound :=
    h.withdraw.give hn (by simp [Registry.withdraw])
  exact hgiven

theorem Sound.offer (h : R.Sound) (howner : R.owner n = some a) (hne : a ≠ n) :
    (R.offer n a).Sound where
  active := h.active
  offered := by
    intro m c hc
    by_cases hm : m = n
    · subst hm
      obtain rfl : a = c := by simpa [Registry.offer] using hc
      exact ⟨howner, hne⟩
    · exact h.offered m c (by simpa [Registry.offer, hm] using hc)

theorem Sound.release (h : R.Sound) (hseller : R.seller n = none) : (R.release n).Sound where
  active := by
    intro m hm c hc
    by_cases hmn : m = n
    · subst hmn
      simp [Registry.release] at hc
    · exact h.active m hm c (by simpa [Registry.release, hmn] using hc)
  offered := by
    intro m c hc
    have hne : m ≠ n := ne_of_seller hseller hc
    obtain ⟨howner, hc⟩ := h.offered m c hc
    exact ⟨by simpa [Registry.release, hne] using howner, hc⟩

theorem Sound.leave (h : R.Sound) : (R.leave a).Sound where
  active := by
    rintro m ⟨hm, -⟩ c hc
    exact h.active m hm c (filter_eq_some_iff.mp hc).1
  offered := by
    intro m c hc
    obtain ⟨hseller, hca⟩ := filter_eq_some_iff.mp hc
    obtain ⟨howner, hne⟩ := h.offered m c hseller
    exact ⟨filter_eq_some_iff.mpr ⟨howner, hca⟩, hne⟩

section Move

variable {scarce : ν → Prop} [DecidablePred scarce]

/-- The account may move to a name that is not in use, not on offer and nobody else's. -/
theorem Sound.move (h : R.Sound) (ha : a ∈ R.inUse) (hb : b ∉ R.inUse)
    (hseller : R.seller b = none) (howner : R.owner b = none ∨ R.owner b = some a) :
    (R.move scarce a b).Sound := by
  have hab : b ≠ a := fun heq => hb (heq ▸ ha)
  refine ⟨?_, ?_⟩
  · rintro m ⟨hm, hma⟩ c hc
    have hma : m ≠ a := hma
    simp only [Registry.move, hma, false_and, if_false] at hc
    rcases hm with rfl | hm
    · rcases howner with hnone | hown
      · simp [hnone] at hc
      · simpa [hown, rekey_self, eq_comm] using hc
    · cases hold : R.owner m with
      | none => simp [hold] at hc
      | some d =>
        obtain rfl := h.active m hm d hold
        simpa [hold, rekey_ne hma, eq_comm] using hc
  · intro m c hc
    simp only [Registry.move] at hc ⊢
    cases hs : R.seller m with
    | none => simp [hs] at hc
    | some d =>
      obtain ⟨hold, hdm⟩ := h.offered m d hs
      have hma : m ≠ a := by
        rintro rfl
        exact hdm (h.active m ha d hold)
      have hmb : m ≠ b := by
        rintro rfl
        rw [hseller] at hs
        cases hs
      rw [hs] at hc
      rw [if_neg (fun hif => hma hif.1), hold, hc]
      refine ⟨rfl, ?_⟩
      rw [rekey_some, some.injEq] at hc
      subst hc
      split
      · exact Ne.symm hmb
      · exact hdm

end Move

/-! ## Owners are accounts -/

/-- Whoever owns a name is an account. -/
def Peopled (R : Registry ν) : Prop := ∀ n a, R.owner n = some a → a ∈ R.inUse

omit [DecidableEq ν] in
theorem Peopled.enter (h : R.Peopled) : (R.enter n).Peopled :=
  fun m c hc => Set.mem_insert_of_mem _ (h m c hc)

theorem Peopled.give (h : R.Peopled) (ha : a ∈ R.inUse) : (R.give n a).Peopled := by
  intro m c hc
  by_cases hm : m = n
  · subst hm
    obtain rfl : a = c := by simpa [Registry.give] using hc
    exact ha
  · exact h m c (by simpa [Registry.give, hm] using hc)

theorem Peopled.release (h : R.Peopled) : (R.release n).Peopled := by
  intro m c hc
  by_cases hm : m = n
  · subst hm
    simp [Registry.release] at hc
  · exact h m c (by simpa [Registry.release, hm] using hc)

theorem Peopled.leave (h : R.Peopled) : (R.leave a).Peopled := by
  intro m c hc
  obtain ⟨howner, hca⟩ := filter_eq_some_iff.mp hc
  exact ⟨h m c howner, by simpa using hca⟩

theorem Peopled.move {scarce : ν → Prop} [DecidablePred scarce] (h : R.Peopled)
    (hab : a ≠ b) : (R.move scarce a b).Peopled := by
  have hb : b ∈ (R.move scarce a b).inUse := ⟨Set.mem_insert _ _, Ne.symm hab⟩
  intro m c hc
  simp only [Registry.move] at hc
  split at hc
  · obtain rfl : b = c := by simpa using hc
    exact hb
  · cases hold : R.owner m with
    | none => simp [hold] at hc
    | some d =>
      rw [hold, rekey_some, some.injEq] at hc
      subst hc
      split
      · exact hb
      · exact ⟨Set.mem_insert_of_mem _ (h m d hold), ‹d ≠ a›⟩

/-! ## Scarce names stay with somebody -/

omit [DecidableEq ν] in
theorem not_free_iff : ¬R.Free n ↔ n ∈ R.inUse ∨ R.owner n ≠ none := by
  unfold Free
  tauto

omit [DecidableEq ν] in
theorem not_free_enter {m : ν} (h : ¬R.Free m) : ¬(R.enter n).Free m := by
  rw [not_free_iff] at h ⊢
  exact h.imp_left (Set.mem_insert_of_mem n)

theorem not_free_give {m : ν} (h : ¬R.Free m) : ¬(R.give n a).Free m := by
  rw [not_free_iff] at h ⊢
  refine h.imp_right ?_
  intro howner
  by_cases hm : m = n
  · simp [Registry.give, hm]
  · simpa [Registry.give, hm] using howner

theorem not_free_move {scarce : ν → Prop} [DecidablePred scarce] {m : ν} (hm : scarce m)
    (h : ¬R.Free m) : ¬(R.move scarce a b).Free m := by
  rw [not_free_iff] at h ⊢
  by_cases howner : R.owner m = none
  · by_cases hma : m = a
    · subst hma
      right
      simp [Registry.move, howner, hm]
    · left
      exact ⟨Set.mem_insert_of_mem _ (h.resolve_right (fun hne => hne howner)), hma⟩
  · right
    simp [Registry.move, howner, rekey]

end Registry
