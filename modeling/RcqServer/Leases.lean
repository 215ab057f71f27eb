import Mathlib.Data.Set.Insert

/-!
# Numbers that change hands

A number is let to one tenant after the other, and whoever has it is given passes for it.  A pass
carries the epoch that the number was in when it was given out, and it is good as long as the number
is in that epoch.  `Sound` is what makes this safe: a pass that is still good was given out while
nobody else had the number.  It survives a change of tenants if the number enters a new epoch, or was
let to nobody before, or has no pass that is still good.
-/

namespace Leases

variable {ν κ : Type}

/-- Who has each number, and its epoch. -/
structure Register (ν κ : Type) where
  tenant : ν → Option κ
  epoch : ν → ℕ

/-- A pass for a number, with its tenant at the time. -/
structure Pass (ν κ : Type) where
  number : ν
  epoch : ℕ
  tenant : Option κ

/-- The pass is still good. -/
def Register.Admits (R : Register ν κ) (p : Pass ν κ) : Prop := p.epoch = R.epoch p.number

/-- No pass for the number is still good. -/
def Register.Unused (R : Register ν κ) (passes : Set (Pass ν κ)) (n : ν) : Prop :=
  ∀ p ∈ passes, p.number = n → ¬R.Admits p

structure Sound (R : Register ν κ) (passes : Set (Pass ν κ)) : Prop where
  given : ∀ p ∈ passes, p.epoch ≤ R.epoch p.number
  tenant : ∀ p ∈ passes, R.Admits p → p.tenant.isSome → R.tenant p.number = p.tenant

/-- What may happen to the numbers, given the passes for them. -/
structure Moves (passes : Set (Pass ν κ)) (R R' : Register ν κ) : Prop where
  mono : ∀ n, R.epoch n ≤ R'.epoch n
  tenant : ∀ n, R'.epoch n = R.epoch n →
    R'.tenant n = R.tenant n ∨ R.tenant n = none ∨ R.Unused passes n

variable {R R' : Register ν κ} {passes : Set (Pass ν κ)} {p : Pass ν κ}

theorem Moves.refl (passes : Set (Pass ν κ)) (R : Register ν κ) : Moves passes R R :=
  ⟨fun _ => le_rfl, fun _ _ => .inl rfl⟩

theorem Moves.trans {S : Register ν κ} (h : Moves passes R R') (h' : Moves passes R' S) :
    Moves passes R S where
  mono n := (h.mono n).trans (h'.mono n)
  tenant n hsame := by
    -- the epoch went up in neither of the two
    have hfirst : R'.epoch n = R.epoch n := le_antisymm (hsame ▸ h'.mono n) (h.mono n)
    rcases h.tenant n hfirst with hkept | hrest
    · rcases h'.tenant n (hsame.trans hfirst.symm) with hkept' | hnobody | hunused
      · exact .inl (hkept'.trans hkept)
      · exact .inr (.inl (hkept ▸ hnobody))
      · refine .inr (.inr fun p hp hn hadmits => hunused p hp hn ?_)
        rw [Register.Admits, hn, hfirst, ← hn]
        exact hadmits
    · exact .inr hrest

theorem Sound.move (h : Sound R passes) (hmove : Moves passes R R') : Sound R' passes where
  given p hp := (h.given p hp).trans (hmove.mono p.number)
  tenant p hp hadmits hsome := by
    -- the epoch has not moved, since the pass would be behind it
    have hstill : R'.epoch p.number = R.epoch p.number :=
      le_antisymm (hadmits ▸ h.given p hp) (hmove.mono p.number)
    have hbefore : R.Admits p := hadmits.trans hstill
    have hwas : R.tenant p.number = p.tenant := h.tenant p hp hbefore hsome
    rcases hmove.tenant p.number hstill with hkept | hnobody | hunused
    · exact hkept.trans hwas
    · rw [← hwas, hnobody] at hsome
      exact nomatch hsome
    · exact absurd hbefore (hunused p hp rfl)

/-- A pass of the present or an earlier epoch is given out. -/
theorem Sound.give (h : Sound R passes) (hepoch : p.epoch ≤ R.epoch p.number)
    (htenant : p.tenant = R.tenant p.number) : Sound R (insert p passes) where
  given q hq := by
    rcases Set.mem_insert_iff.mp hq with rfl | hq
    · exact hepoch
    · exact h.given q hq
  tenant q hq hadmits hsome := by
    rcases Set.mem_insert_iff.mp hq with rfl | hq
    · exact htenant.symm
    · exact h.tenant q hq hadmits hsome

/-- The pass of a former tenant is good for nothing. -/
theorem Sound.not_admits (h : Sound R passes) (hp : p ∈ passes) {k k' : κ}
    (hthen : p.tenant = some k) (hnow : R.tenant p.number = some k') (hother : k' ≠ k) :
    ¬R.Admits p := by
  intro hadmits
  have heq : R.tenant p.number = p.tenant := h.tenant p hp hadmits (hthen ▸ rfl)
  rw [hthen, hnow] at heq
  exact hother (Option.some.inj heq)

end Leases
