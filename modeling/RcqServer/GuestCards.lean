import RcqServer.Basic
import Mathlib.Data.List.Nodup

/-!
# Guest cards

An owner registers hashes of cards, and may have `MAX_CARDS` of them out at once.  The rows of revoked
cards stay, which is why a hash cannot be registered anew; but `list_cards` answers with the newest
`2 * MAX_CARDS` rows of either kind, so revoked ones can push a card off the list that still opens the
door.
-/

namespace RcqServer.GuestCards

open List

/-- `MAX_CARDS`. -/
def maxCards : ℕ := 200

structure Card (H : Type) where
  cardHash : H
  ownerUin : Uin
  createdAt : Time
  revoked : Bool

/-- A call, with the hash that it names; `none` is a text that is not one. -/
inductive Request (H : Type)
  | addCard (uin : Uin) (hash : Option H) (now : Time)
  | revokeCard (uin : Uin) (hash : Option H)

variable {H : Type} [DecidableEq H]

/-- The cards that an owner has out. -/
def held (s : List (Card H)) (uin : Uin) : ℕ := s.countP fun c => c.ownerUin = uin ∧ ¬c.revoked

def badHash : HttpError := ⟨400, "card_hash must be sha256-hex"⟩

def addCard (s : List (Card H)) (uin : Uin) (hash : Option H) (now : Time) :
    Except HttpError (Card H) × List (Card H) :=
  match hash with
  | none => (.error badHash, s)
  | some digest =>
    if maxCards ≤ held s uin then (.error ⟨409, "too many cards; revoke one first"⟩, s)
    else match s.find? (·.cardHash = digest) with
      | some row =>
        (if row.ownerUin = uin then .ok row else .error ⟨409, "card already registered"⟩, s)
      | none => (.ok ⟨digest, uin, now, false⟩, ⟨digest, uin, now, false⟩ :: s)

/-- The `UPDATE` of a revocation. -/
def Card.revoke (uin : Uin) (digest : H) (c : Card H) : Card H :=
  if c.cardHash = digest ∧ c.ownerUin = uin then { c with revoked := true } else c

def revokeCard (s : List (Card H)) (uin : Uin) (hash : Option H) :
    Except HttpError Unit × List (Card H) :=
  match hash with
  | none => (.error badHash, s)
  | some digest =>
    (if s.any fun c => c.cardHash = digest ∧ c.ownerUin = uin then .ok ()
      else .error ⟨404, "no such card"⟩, s.map (Card.revoke uin digest))

def serve (s : List (Card H)) : Request H → List (Card H)
  | .addCard uin hash now => (addCard s uin hash now).2
  | .revokeCard uin hash => (revokeCard s uin hash).2

/-- The table after the calls. -/
def cards (requests : List (Request H)) : List (Card H) := requests.foldl serve []

/-- `list_cards` may answer with `out`; rows of one moment come in any order. -/
def Lists (s : List (Card H)) (uin : Uin) (out : List (Card H)) : Prop :=
  ∃ rows, rows ~ s.filter (·.ownerUin = uin) ∧
    rows.Pairwise (fun c d => d.createdAt ≤ c.createdAt) ∧ out = rows.take (maxCards * 2)

/-- `redeem_card`, of a card with the given hash. -/
def redeemCard (s : List (Card H)) (targetUin : Uin) (hash : H) : Prop :=
  ∃ c ∈ s, c.cardHash = hash ∧ c.ownerUin = targetUin ∧ c.revoked = false

/-- The invariant of the table. -/
structure Kept (s : List (Card H)) : Prop where
  nodup : (s.map Card.cardHash).Nodup
  capped : ∀ uin, held s uin ≤ maxCards

variable {s : List (Card H)} {uin : Uin} {digest : H}

@[simp] theorem revoke_cardHash (c : Card H) : (c.revoke uin digest).cardHash = c.cardHash := by
  unfold Card.revoke
  split <;> rfl

@[simp] theorem revoke_ownerUin (c : Card H) : (c.revoke uin digest).ownerUin = c.ownerUin := by
  unfold Card.revoke
  split <;> rfl

theorem revoke_revoked {c : Card H} (hc : c.revoked) : (c.revoke uin digest).revoked := by
  unfold Card.revoke
  split
  · rfl
  · exact hc

theorem Kept.serve (h : Kept s) (r : Request H) : Kept (serve s r) := by
  rcases r with ⟨uin, _ | digest, now⟩ | ⟨uin, _ | digest⟩
  · exact h
  · simp only [GuestCards.serve, addCard]
    split_ifs with hfull
    · exact h
    split
    · exact h
    rename_i hnone
    refine ⟨?_, fun u => ?_⟩
    · simpa [h.nodup] using hnone
    · by_cases hown : uin = u
      · subst hown
        rw [held, countP_cons_of_pos (by simp)]
        exact not_le.mp hfull
      · rw [held, countP_cons_of_neg (by simp [hown])]
        exact h.capped u
  · exact h
  · refine ⟨by simpa [GuestCards.serve, revokeCard, Function.comp_def] using h.nodup, fun u => ?_⟩
    refine le_trans ?_ (h.capped u)
    simp only [GuestCards.serve, revokeCard, held, countP_map]
    refine countP_mono_left fun c _ hc => ?_
    simp only [Function.comp, revoke_ownerUin, decide_eq_true_eq] at hc ⊢
    exact ⟨hc.1, fun hrevoked => hc.2 (revoke_revoked hrevoked)⟩

/-- A card that is revoked stays so. -/
theorem revoked_serve (r : Request H) {c : Card H} (hc : c ∈ s) (hrevoked : c.revoked) :
    ∃ d ∈ serve s r, d.cardHash = c.cardHash ∧ d.revoked := by
  rcases r with ⟨uin, _ | digest, now⟩ | ⟨uin, _ | digest⟩
  · exact ⟨c, hc, rfl, hrevoked⟩
  · refine ⟨c, ?_, rfl, hrevoked⟩
    simp only [GuestCards.serve, addCard]
    split_ifs
    · exact hc
    split
    · exact hc
    · exact mem_cons_of_mem _ hc
  · exact ⟨c, hc, rfl, hrevoked⟩
  · exact ⟨c.revoke uin digest, mem_map_of_mem hc, by simp, revoke_revoked hrevoked⟩

theorem kept_cards (requests : List (Request H)) : Kept (cards requests) := by
  have hnil : Kept ([] : List (Card H)) := ⟨nodup_nil, fun _ => Nat.zero_le _⟩
  exact foldlRecOn requests serve hnil fun _ h r _ => h.serve r

theorem revoked_cards (later : List (Request H)) {c : Card H} (hc : c ∈ s) (hrevoked : c.revoked) :
    ∃ d ∈ later.foldl serve s, d.cardHash = c.cardHash ∧ d.revoked := by
  refine foldlRecOn (motive := fun s => ∃ d ∈ s, d.cardHash = c.cardHash ∧ d.revoked) later serve
    ⟨c, hc, rfl, hrevoked⟩ ?_
  rintro s ⟨d, hd, hhash, hrevoked⟩ r -
  rw [← hhash]
  exact revoked_serve r hd hrevoked

/-- One card, and `n` that were revoked as soon as they were registered. -/
def crowd : ℕ → List (Card ℕ)
  | 0 => [⟨0, 7, 0, false⟩]
  | n + 1 => ⟨n + 1, 7, n + 1, true⟩ :: crowd n

/-- The calls that lead there. -/
def crowding : ℕ → List (Request ℕ)
  | 0 => [.addCard 7 (some 0) 0]
  | n + 1 => crowding n ++ [.addCard 7 (some (n + 1)) (n + 1), .revokeCard 7 (some (n + 1))]

theorem crowd_le (n : ℕ) : ∀ c ∈ crowd n, c.cardHash ≤ n ∧ c.createdAt ≤ n ∧ c.ownerUin = 7 := by
  induction n with
  | zero => simp [crowd]
  | succ n ih =>
    rintro c (_ | ⟨_, hc⟩)
    · simp
    · obtain ⟨hhash, hcreated, howner⟩ := ih c hc
      exact ⟨Nat.le_succ_of_le hhash, Nat.le_succ_of_le hcreated, howner⟩

/-- The newest cards of a crowd are the revoked ones. -/
theorem crowd_spec (n : ℕ) : held (crowd n) 7 = 1 ∧ ⟨0, 7, 0, false⟩ ∈ crowd n ∧
    (crowd n).Pairwise (fun c d => d.createdAt ≤ c.createdAt) ∧
    ∀ c ∈ (crowd n).take n, c.cardHash ≠ 0 := by
  induction n with
  | zero => simp [held, crowd]
  | succ n ih =>
    obtain ⟨hheld, hmem, hsorted, htake⟩ := ih
    refine ⟨by simpa [held, crowd] using hheld, mem_cons_of_mem _ hmem, ?_, ?_⟩
    · exact hsorted.cons fun c hc => Nat.le_succ_of_le (crowd_le n c hc).2.1
    · simpa [crowd] using htake

theorem cards_crowding (n : ℕ) : cards (crowding n) = crowd n := by
  induction n with
  | zero => rfl
  | succ n ih =>
    have hne : ∀ c ∈ crowd n, c.cardHash ≠ n + 1 := fun c hc =>
      (Nat.lt_succ_of_le (crowd_le n c hc).1).ne
    have hnone : (crowd n).find? (·.cardHash = n + 1) = none := by simpa using hne
    have hsame : (crowd n).map (Card.revoke 7 (n + 1)) = crowd n :=
      (map_congr_left fun c hc => by simp [Card.revoke, hne c hc]).trans (map_id _)
    rw [cards] at ih
    rw [cards, crowding, foldl_append, ih]
    simp [serve, addCard, revokeCard, crowd_spec, maxCards, hnone, hsame, crowd, Card.revoke]

end RcqServer.GuestCards
