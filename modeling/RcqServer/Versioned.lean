import Mathlib.Data.List.Nodup

/-!
# Versioned cells

A cell is a value with a version number, or is absent (version `0`).  An update names the version
that its author has read, and takes effect only on top of it.  `Chain` is what the updates that
took effect on one cell look like: each one starts from the value that the previous one left.

In such a chain no update is lost and no version comes twice, whatever the updates are.
-/

namespace Versioned

open List

variable {γ : Type*} (version : γ → ℕ)

/-- An update that took effect. -/
structure Update (γ : Type*) where
  /-- The version that it was based on. -/
  based : ℕ
  result : γ
deriving DecidableEq

/-- The version of a cell; one that is absent counts as `0`. -/
def versionOf : Option γ → ℕ
  | none => 0
  | some cell => version cell

/-- The updates, newest first, lead from the first cell to the last one. -/
inductive Chain (first : Option γ) : List (Update γ) → Option γ → Prop
  | nil : Chain first [] first
  | cons {updates : List (Update γ)} {cell : Option γ} {u : Update γ}
      (before : Chain first updates cell) (current : u.based = versionOf version cell)
      (advance : version u.result = u.based + 1) : Chain first (u :: updates) (some u.result)

namespace Chain

variable {version} {first last : Option γ} {updates : List (Update γ)}

/-- Every version of the chain is at most the last one. -/
theorem version_le (h : Chain version first updates last) {u : Update γ} (hu : u ∈ updates) :
    version u.result ≤ versionOf version last := by
  induction h with
  | nil => cases hu
  | @cons updates cell v _ current advance ih =>
    rcases mem_cons.mp hu with rfl | hold
    · exact Nat.le_refl _
    · calc version u.result ≤ versionOf version cell := ih hold
        _ ≤ versionOf version cell + 1 := Nat.le_succ _
        _ = version v.result := by rw [advance, current]

/-- No two updates lead to the same version. -/
theorem versions_nodup (h : Chain version first updates last) :
    (updates.map fun u => version u.result).Nodup := by
  induction h with
  | nil => exact nodup_nil
  | @cons updates cell v before current advance ih =>
    refine nodup_cons.mpr ⟨fun hmem => ?_, ih⟩
    obtain ⟨u, hu, heq⟩ := mem_map.mp hmem
    have hsame : version u.result = version v.result := heq
    have hle : version u.result ≤ versionOf version cell := before.version_le hu
    omega

/-- Each update sets the version to one more than the one it was based on. -/
theorem version_eq (h : Chain version first updates last) {u : Update γ} (hu : u ∈ updates) :
    version u.result = u.based + 1 := by
  induction h with
  | nil => cases hu
  | cons _ _ advance ih =>
    rcases mem_cons.mp hu with rfl | hold
    · exact advance
    · exact ih hold

end Chain

end Versioned
