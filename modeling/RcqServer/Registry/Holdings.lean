import RcqServer.Registry.Basic

/-!
# How much an account holds

`Registry.holdings a` are the names that `a` owns beside the one it answers as.  A gift or a sale
adds one name to them.  A move takes them along without the name that is moved to, and adds the one
that is left if it is kept: this is how a collection can grow without anything being acquired.
-/

namespace Registry

open Function Option

variable {ν : Type} [DecidableEq ν] {R : Registry ν} {n a b c : ν} {k : ℕ∞}

/-- No account holds more than `k` names. -/
def Capped (k : ℕ∞) (R : Registry ν) : Prop := ∀ a, (R.holdings a).encard ≤ k

theorem holdings_give_self : (R.give n a).holdings a ⊆ insert n (R.holdings a) := by
  rintro m ⟨howner, hne⟩
  by_cases hm : m = n
  · exact .inl hm
  · exact .inr ⟨by simpa [give, hm] using howner, hne⟩

theorem holdings_give_ne (hc : c ≠ a) : (R.give n a).holdings c ⊆ R.holdings c := by
  rintro m ⟨howner, hne⟩
  by_cases hm : m = n
  · subst hm
    exact absurd (by simpa [give] using howner) (Ne.symm hc)
  · exact ⟨by simpa [give, hm] using howner, hne⟩

theorem Capped.give (h : R.Capped k) (hroom : (R.holdings a).encard < k) :
    (R.give n a).Capped k := by
  intro c
  by_cases hc : c = a
  · subst hc
    calc ((R.give n c).holdings c).encard
        ≤ (insert n (R.holdings c)).encard := Set.encard_le_encard holdings_give_self
      _ ≤ (R.holdings c).encard + 1 := Set.encard_insert_le _ _
      _ ≤ k := Order.add_one_le_of_lt hroom
  · exact (Set.encard_le_encard (holdings_give_ne hc)).trans (h c)

section Move

variable {scarce : ν → Prop} [DecidablePred scarce]

/-- The move takes along what the account holds, without the name moved to, and at most the name
that is left. -/
theorem holdings_move_self (hpeopled : R.Peopled) (hb : b ∉ R.inUse) :
    (R.move scarce a b).holdings b ⊆ insert a (R.holdings a \ {b}) := by
  rintro m ⟨howner, hmb⟩
  by_cases hma : m = a
  · exact .inl hma
  · right
    simp only [move, hma, false_and, if_false] at howner
    cases hold : R.owner m with
    | none => simp [hold] at howner
    | some d =>
      rw [hold, rekey_some, some.injEq] at howner
      split at howner
      · rename_i hd
        subst hd
        exact ⟨⟨hold, hma⟩, hmb⟩
      · subst howner
        exact absurd (hpeopled m d hold) hb

/-- An ordinary name that nobody owns is not kept. -/
theorem holdings_move_self_of_ordinary (hpeopled : R.Peopled) (hb : b ∉ R.inUse)
    (hscarce : ¬scarce a) (howner : R.owner a = none) :
    (R.move scarce a b).holdings b ⊆ R.holdings a \ {b} := by
  intro m hm
  rcases holdings_move_self hpeopled hb hm with rfl | hold
  · have hnone : (R.move scarce m b).owner m = none := by simp [move, howner, hscarce]
    have hsome := hm.1
    rw [hnone] at hsome
    cases hsome
  · exact hold

/-- Nobody else gets anything, and the old name nothing at all. -/
theorem holdings_move_ne (hc : c ≠ b) :
    (R.move scarce a b).holdings c ⊆ if c = a then ∅ else R.holdings c := by
  rintro m ⟨howner, hne⟩
  simp only [move] at howner
  split at howner
  · exact absurd (some.inj howner).symm hc
  · cases hold : R.owner m with
    | none => simp [hold] at howner
    | some d =>
      rw [hold, rekey_some, some.injEq] at howner
      split at howner
      · exact absurd howner.symm hc
      · rename_i hda
        subst howner
        rw [if_neg hda]
        exact ⟨hold, hne⟩

/-- A move keeps the cap if there is room for the name that is left, or that name is not kept. -/
theorem Capped.of_move (hothers : ∀ c, c ≠ a → (R.holdings c).encard ≤ k) (hpeopled : R.Peopled)
    (hb : b ∉ R.inUse) (hroom : (R.holdings a \ {b}).encard < k ∨
      (¬scarce a ∧ R.owner a = none) ∧ (R.holdings a \ {b}).encard ≤ k) :
    (R.move scarce a b).Capped k := by
  intro c
  by_cases hc : c = b
  · subst hc
    rcases hroom with hlt | ⟨⟨hscarce, howner⟩, hle⟩
    · calc ((R.move scarce a c).holdings c).encard
          ≤ (insert a (R.holdings a \ {c})).encard :=
            Set.encard_le_encard (holdings_move_self hpeopled hb)
        _ ≤ (R.holdings a \ {c}).encard + 1 := Set.encard_insert_le _ _
        _ ≤ k := Order.add_one_le_of_lt hlt
    · exact (Set.encard_le_encard
        (holdings_move_self_of_ordinary hpeopled hb hscarce howner)).trans hle
  · refine (Set.encard_le_encard (holdings_move_ne hc)).trans ?_
    split
    · simp
    · exact hothers c ‹_›

end Move

/-! ## Who is behind the names -/

variable {ι : Type} {R' : Registry ν} {I I' : ν → Option ι} {new : Option ι} {i : ι}

/-- Whoever answers as a name, by `I`, has that name and all that it holds. -/
def HeldBy (R : Registry ν) (I : ν → Option ι) (i : ι) (n : ν) : Prop :=
  ∃ m, I m = some i ∧ (n = m ∨ n ∈ R.holdings m)

/-- Who answers as a name has answered as it before, or is `new` and the name was not in use. -/
def Follows (R R' : Registry ν) (I I' : ν → Option ι) (new : Option ι) : Prop :=
  ∀ m i, I' m = some i → m ∈ R'.inUse ∧ (m ∈ R.inUse ∧ I m = some i ∨ m ∉ R.inUse ∧ new = some i)

omit [DecidableEq ν] in
theorem Follows.refl (hI : ∀ m i, I m = some i → m ∈ R.inUse) : R.Follows R I I new :=
  fun m i hm => ⟨hI m i hm, .inl ⟨hI m i hm, hm⟩⟩

theorem Follows.enter (h : R.Follows R I I new) (hn : n ∉ R.inUse) :
    R.Follows (R.enter n) I (update I n new) new := by
  intro m i hm
  rw [update_apply] at hm
  split at hm
  · rename_i heq
    exact ⟨.inl heq, .inr ⟨heq ▸ hn, hm⟩⟩
  · exact ⟨.inr (h m i hm).1, (h m i hm).2⟩

theorem Follows.drop (h : R.Follows R' I I' new) :
    R.Follows { R' with inUse := R'.inUse \ {a} } I (update I' a none) new := by
  intro m i hm
  rw [update_apply] at hm
  split at hm
  · cases hm
  · exact ⟨⟨(h m i hm).1, ‹_›⟩, (h m i hm).2⟩

omit [DecidableEq ν] in
/-- Nobody gains by it if nobody comes and no name holds more. -/
theorem HeldBy.of_less (h : R'.HeldBy I' i n) (hI : R.Follows R' I I' new)
    (hin : R'.inUse ⊆ R.inUse) (hless : ∀ m, R'.holdings m ⊆ R.holdings m) : R.HeldBy I i n := by
  obtain ⟨m, hm, hn⟩ := h
  obtain ⟨hused, hold | ⟨hfresh, -⟩⟩ := hI m i hm
  · exact ⟨m, hold.2, hn.imp id (hless m ·)⟩
  · exact absurd (hin hused) hfresh

/-- Only the owner gains a name that is given away. -/
theorem HeldBy.of_give (h : R'.HeldBy I' i n) (hI : R.Follows R' I I' new)
    (hin : R'.inUse = R.inUse) (howner : R'.owner = (R.give b a).owner) :
    R.HeldBy I i n ∨ n = b ∧ I a = some i := by
  obtain ⟨m, hm, hn⟩ := h
  obtain ⟨hused, hold | ⟨hfresh, -⟩⟩ := hI m i hm
  · have hn : n = m ∨ n ∈ (R.give b a).holdings m := by simpa [holdings, howner] using hn
    rcases hn with hn | hn
    · exact .inl ⟨m, hold.2, .inl hn⟩
    by_cases hma : m = a
    · subst hma
      rcases holdings_give_self hn with rfl | hn
      · exact .inr ⟨rfl, hold.2⟩
      · exact .inl ⟨m, hold.2, .inr hn⟩
    · exact .inl ⟨m, hold.2, .inr (holdings_give_ne hma hn)⟩
  · exact absurd (hin ▸ hused) hfresh

omit [DecidableEq ν] in
/-- Whoever comes in gains the name, behind which nothing is waiting. -/
theorem HeldBy.of_enter (h : (R.enter b).HeldBy I' i n) (hI : R.Follows (R.enter b) I I' new)
    (hpeopled : R.Peopled) : R.HeldBy I i n ∨ n = b ∧ new = some i := by
  obtain ⟨m, hm, hn⟩ := h
  obtain ⟨hused, hold | ⟨hfresh, hnew⟩⟩ := hI m i hm
  · exact .inl ⟨m, hold.2, hn⟩
  · obtain rfl : m = b := hused.resolve_right hfresh
    exact .inr ⟨hn.resolve_right fun hheld => hfresh (hpeopled n m hheld.1), hnew⟩

/-- Whoever moves gains the name that it moves to. -/
theorem HeldBy.of_move {scarce : ν → Prop} [DecidablePred scarce]
    (h : (R.move scarce a b).HeldBy I' i n) (hI : R.Follows (R.move scarce a b) I I' (I a))
    (hpeopled : R.Peopled) (hb : b ∉ R.inUse) : R.HeldBy I i n ∨ n = b ∧ I a = some i := by
  obtain ⟨m, hm, hn⟩ := h
  obtain ⟨⟨hused, hma⟩, hold | ⟨hfresh, hnew⟩⟩ := hI m i hm
  · have hmb : m ≠ b := fun heq => hb (heq ▸ hold.1)
    refine .inl ⟨m, hold.2, hn.imp id fun hn => ?_⟩
    have hsame := holdings_move_ne hmb hn
    rwa [if_neg (show m ≠ a from hma)] at hsame
  · obtain rfl : m = b := hused.resolve_right hfresh
    rcases hn with rfl | hn
    · exact .inr ⟨rfl, hnew⟩
    · rcases holdings_move_self hpeopled hb hn with rfl | hn
      · exact .inl ⟨n, hnew, .inl rfl⟩
      · exact .inl ⟨a, hnew, .inr hn.1⟩

end Registry
