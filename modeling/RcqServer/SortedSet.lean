import Mathlib.Data.List.Nodup
import Mathlib.Data.List.MinMax

/-!
# Sorted sets

Members with scores, as Redis keeps them.  A member has one score, and adding a member that is there
already replaces its score: the set does not grow.
-/

/-- The members with their scores, each member once. -/
structure SortedSet (μ σ : Type*) where
  entries : List (μ × σ)
  nodup : (entries.map Prod.fst).Nodup

namespace SortedSet

open List

variable {μ σ : Type*}

def empty : SortedSet μ σ := ⟨[], nodup_nil⟩

/-- `ZRANGE 0 -1`, in any order. -/
def members (z : SortedSet μ σ) : List μ := z.entries.map Prod.fst

/-- `ZCARD`. -/
def card (z : SortedSet μ σ) : ℕ := z.entries.length

/-- `ZRANGE 0 0 WITHSCORES`, of which the score. -/
def lowest [LinearOrder σ] (z : SortedSet μ σ) : Option σ := (z.entries.map Prod.snd).min?

/-- `ZADD`. -/
def add [DecidableEq μ] (z : SortedSet μ σ) (score : σ) (m : μ) : SortedSet μ σ where
  entries := (m, score) :: z.entries.filter (·.1 ≠ m)
  nodup := by
    refine nodup_cons.mpr ⟨fun h => ?_, z.nodup.sublist (filter_sublist.map _)⟩
    obtain ⟨x, hx, hxm⟩ := mem_map.mp h
    exact of_decide_eq_true (mem_filter.mp hx).2 hxm

/-- `ZREMRANGEBYSCORE -inf max`. -/
def removeUpTo [LinearOrder σ] (z : SortedSet μ σ) (max : σ) : SortedSet μ σ where
  entries := z.entries.filter (max < ·.2)
  nodup := z.nodup.sublist (filter_sublist.map _)

@[simp] theorem length_members (z : SortedSet μ σ) : z.members.length = z.card := length_map _

theorem mem_removeUpTo [LinearOrder σ] {z : SortedSet μ σ} {max : σ} {x : μ × σ} :
    x ∈ (z.removeUpTo max).entries ↔ x ∈ z.entries ∧ max < x.2 := by
  simp [removeUpTo]

theorem mem_add [DecidableEq μ] {z : SortedSet μ σ} {score : σ} {m : μ} {x : μ × σ} :
    x ∈ (z.add score m).entries ↔ x = (m, score) ∨ x ∈ z.entries ∧ x.1 ≠ m := by
  simp [add]

end SortedSet
