import RcqServer.RateLimit.Limiter
import Mathlib.Data.List.AList

/-!
# When a refused caller may come back

A refusal carries `retry_after`.  The script rounds the time that is left up to the next whole
second, and by then the oldest timestamp has left the window.  `_local_allow`, which stands in for
the script when Redis is away, rounds it down, and it keeps a timestamp that is exactly as old as
the window.
-/

namespace RcqServer.RateLimit

open List Option

/-! ## The script -/

section Script

variable {limit window : ℕ} {e : Eval} {key : Option Bucket}

/-- A sweep leaves no more than the sorted set has beyond the cutoff. -/
theorem card_swept_le_removeUpTo {hits : SortedSet Instant Instant} (h : ∀ b ∈ key, b.hits = hits) :
    (swept window e key).card ≤ (hits.removeUpTo (e.now - window)).card := by
  unfold swept
  cases hlive : live e.clock key with
  | none => exact Nat.zero_le _
  | some b =>
    rw [← h b (filter_eq_some_iff.mp hlive).1]
    exact le_rfl

theorem card_swept_le_limit (h : ∀ b ∈ key, b.hits.card ≤ limit) :
    (swept window e key).card ≤ limit := by
  cases key with
  | none => exact Nat.zero_le _
  | some b =>
    have hsweep : ∀ b' ∈ some b, b'.hits = b.hits := fun b' hb' => by cases hb'; rfl
    exact (card_swept_le_removeUpTo hsweep).trans
      ((length_filter_le _ _).trans (h b rfl))

/-- The key never holds more timestamps than the limit. -/
theorem card_history_le (limit window : ℕ) (es : List Eval) :
    ∀ b ∈ (history limit window es).1, b.hits.card ≤ limit := by
  induction es with
  | nil => exact fun b hb => absurd hb (not_mem_none b)
  | cons e before ih =>
    intro b hb
    simp only [history, script] at hb
    split at hb
    · obtain ⟨b', -, rfl⟩ := map_eq_some_iff.mp hb
      exact card_swept_le_limit ih
    · rename_i hroom
      cases hb
      have hadd : ((swept window e (history limit window before).1).add e.now e.now).card ≤
          (swept window e (history limit window before).1).card + 1 :=
        Nat.succ_le_succ (length_filter_le _ _)
      exact hadd.trans (by omega)

/-- By the time that is answered, the oldest of the timestamps has left the window. -/
theorem oldest_le_retryAfter {hits : SortedSet Instant Instant} {oldest : Instant}
    (hlow : hits.lowest = some oldest) : oldest ≤ e.now + retryAfter window e hits - window := by
  have hfloor := Int.lt_floor_add_one (oldest + window - e.now)
  have hmax : ((⌊oldest + window - e.now⌋ + 1 : ℤ) : ℚ) ≤ retryAfter window e hits := by
    simp only [retryAfter, hlow]
    exact_mod_cast le_max_right _ _
  push_cast at hmax
  linarith

/-- A call that comes when it was told to is accepted, unless the limit is zero. -/
theorem script_retry (hcard : ∀ b ∈ key, b.hits.card ≤ limit) {r : ℤ}
    (hrefused : (script limit window e key).1 = ⟨false, r⟩) (clock : Instant) :
    (script limit window ⟨e.now + r, clock⟩ (script limit window e key).2).1.accepted = true ↔
      0 < limit := by
  have hfull : limit ≤ (swept window e key).card := by
    by_contra hroom
    simp [script, hroom] at hrefused
  have hr : retryAfter window e (swept window e key) = r := by
    simpa [script, hfull] using hrefused
  have hnext : (script limit window ⟨e.now + r, clock⟩ (script limit window e key).2).1.accepted =
      true ↔ (swept window ⟨e.now + r, clock⟩ ((live e.clock key).map fun b =>
        { b with hits := swept window e key })).card < limit := by
    simp only [script, hfull, if_true]
    split
    · rename_i h
      simpa using h
    · rename_i h
      simpa using h
  rw [hnext]
  refine ⟨Nat.zero_lt_of_lt, fun hpos => ?_⟩
  -- the lowest score is among the timestamps, and it is the one that goes
  have hne : (swept window e key).entries.map Prod.snd ≠ [] := by
    intro hnil
    have hzero : (swept window e key).card = 0 := by
      simpa [SortedSet.card] using congrArg length hnil
    omega
  obtain ⟨oldest, hlow⟩ := isSome_iff_exists.mp (isSome_min?_of_ne_nil hne)
  obtain ⟨x, hx, hxo⟩ := mem_map.mp (min?_mem hlow)
  have hgone : oldest ≤ e.now + r - window := hr ▸ oldest_le_retryAfter hlow
  have hkept : ∀ b ∈ (live e.clock key).map fun b => { b with hits := swept window e key },
      b.hits = swept window e key := by
    intro b hb
    obtain ⟨b', -, rfl⟩ := map_eq_some_iff.mp hb
    rfl
  calc (swept window ⟨e.now + r, clock⟩ _).card
      ≤ ((swept window e key).removeUpTo (e.now + r - window)).card :=
        card_swept_le_removeUpTo hkept
    _ < (swept window e key).card :=
        length_filter_lt_length_iff_exists.mpr ⟨x, hx, by simpa [hxo] using hgone⟩
    _ ≤ limit := card_swept_le_limit hcard

end Script

/-! ## `_local_allow` -/

/-- The timestamps of one worker under each key, oldest first. -/
abbrev LocalHits (κ : Type*) := AList fun _ : κ => List Instant

/-- `_LOCAL_MAX_KEYS`. -/
def localMaxKeys : ℕ := 20000

/-- What a key is limited to. -/
structure Rule where
  limit : ℕ
  window : ℕ

section Local

variable {κ : Type*} [DecidableEq κ] {rule : κ → Rule} {all : LocalHits κ} {key : κ}

/-- The map as a call finds it: one that has grown too large is dropped first. -/
def LocalHits.bounded (all : LocalHits κ) : LocalHits κ :=
  if localMaxKeys < all.entries.length then ∅ else all

/-- The timestamps under a key. -/
def LocalHits.hits (all : LocalHits κ) (key : κ) : List Instant := (all.lookup key).getD []

/-- The timestamps that `popleft` has left. -/
def inWindow (rule : Rule) (now : Instant) (hits : List Instant) : List Instant :=
  hits.dropWhile (· < now - rule.window)

/-- `_local_allow`; there is no answer when `hits[0]` fails, that is for a limit of zero.  What is
left of the window is not negative, so `int` takes its floor. -/
def localAllow (rule : κ → Rule) (key : κ) (now : Instant) (all : LocalHits κ) :
    Option Verdict × LocalHits κ :=
  let hits := inWindow (rule key) now (all.bounded.hits key)
  if (rule key).limit ≤ hits.length then
    (hits.head?.map fun oldest => ⟨false, max 1 ⌊oldest + (rule key).window - now⌋⟩,
      all.bounded.insert key hits)
  else
    (some ⟨true, 0⟩, all.bounded.insert key (hits ++ [now]))

/-- The map after some calls, the newest of which comes first. -/
def localHistory (rule : κ → Rule) : List (κ × Instant) → LocalHits κ
  | [] => ∅
  | (key, now) :: before => (localAllow rule key now (localHistory rule before)).2

/-- One of the later calls, or the next one, finds the map too large. -/
def Overflows (rule : κ → Rule) (before : List (κ × Instant)) : List (κ × Instant) → Prop
  | [] => localMaxKeys < (localHistory rule before).entries.length
  | c :: later =>
    localMaxKeys < (localHistory rule (c :: later ++ before)).entries.length ∨
      Overflows rule before later

theorem hits_bounded_of_lt (h : localMaxKeys < all.entries.length) : all.bounded.hits key = [] := by
  simp [LocalHits.bounded, LocalHits.hits, h]

theorem hits_bounded_of_not_lt (h : ¬ localMaxKeys < all.entries.length) :
    all.bounded.hits key = all.hits key := by
  simp [LocalHits.bounded, h]

theorem length_hits_bounded_le (all : LocalHits κ) (key : κ) :
    (all.bounded.hits key).length ≤ (all.hits key).length := by
  by_cases h : localMaxKeys < all.entries.length
  · rw [hits_bounded_of_lt h]
    exact Nat.zero_le _
  · rw [hits_bounded_of_not_lt h]

theorem hits_localAllow_of_ne {other : κ} (hne : other ≠ key) (now : Instant) :
    (localAllow rule other now all).2.hits key = all.bounded.hits key := by
  unfold localAllow
  dsimp only
  split <;> simp [LocalHits.hits, AList.lookup_insert_ne hne.symm]

/-- A deque is never longer than the limit of its key. -/
theorem length_localHistory_le (rule : κ → Rule) (calls : List (κ × Instant)) (key : κ) :
    ((localHistory rule calls).hits key).length ≤ (rule key).limit := by
  induction calls with
  | nil => exact Nat.zero_le _
  | cons c before ih =>
    have hbounded := (length_hits_bounded_le (localHistory rule before) key).trans ih
    by_cases hkey : c.1 = key
    · have hkept := ((dropWhile_sublist (l := (localHistory rule before).bounded.hits key)
        (p := (· < c.2 - (rule key).window))).length_le).trans hbounded
      subst hkey
      simp only [localHistory, localAllow]
      split
      · simpa [LocalHits.hits, inWindow] using hkept
      · rename_i hroom
        simp only [LocalHits.hits, AList.lookup_insert, getD_some, length_append,
          length_singleton]
        simp only [LocalHits.hits] at hroom
        omega
    · simpa only [localHistory, hits_localAllow_of_ne hkey] using hbounded

/-- Calls under other keys leave the timestamps as they are, unless the map overflows. -/
theorem hits_of_others (rule : κ → Rule) (before : List (κ × Instant)) {others : List (κ × Instant)}
    (hothers : ∀ c ∈ others, c.1 ≠ key) : (Overflows rule before others →
      (localHistory rule (others ++ before)).bounded.hits key = []) ∧
    (¬ Overflows rule before others → (localHistory rule (others ++ before)).bounded.hits key =
        (localHistory rule before).hits key) := by
  induction others with
  | nil => exact ⟨hits_bounded_of_lt, hits_bounded_of_not_lt⟩
  | cons c later ih =>
    have hstep : (localHistory rule (c :: later ++ before)).hits key =
        (localHistory rule (later ++ before)).bounded.hits key :=
      hits_localAllow_of_ne (hothers c mem_cons_self) c.2
    have ih := ih fun c hc => hothers c (mem_cons_of_mem _ hc)
    by_cases hlast : localMaxKeys < (localHistory rule (c :: later ++ before)).entries.length
    · exact ⟨fun _ => hits_bounded_of_lt hlast, fun hno => absurd (.inl hlast) hno⟩
    · rw [hits_bounded_of_not_lt hlast, hstep]
      exact ⟨fun h => ih.1 (h.resolve_left hlast), fun h => ih.2 fun hlater => h (.inr hlater)⟩

theorem localAllow_accepted_iff {now : Instant} : (localAllow rule key now all).1 = some ⟨true, 0⟩ ↔
      (inWindow (rule key) now (all.bounded.hits key)).length < (rule key).limit := by
  unfold localAllow
  dsimp only
  split
  · rename_i hfull
    simp only [map_eq_some_iff, Verdict.mk.injEq, Bool.false_eq_true, false_and, and_false,
      exists_false, false_iff]
    omega
  · rename_i hroom
    simpa using hroom

/-- A refusal was of a full deque, and it leaves what is in the window. -/
theorem localAllow_refused {now : Instant} {r : ℤ}
    (h : (localAllow rule key now all).1 = some ⟨false, r⟩) :
    ∃ oldest rest, inWindow (rule key) now (all.hits key) = oldest :: rest ∧
      r = max 1 ⌊oldest + (rule key).window - now⌋ ∧ (rule key).limit ≤ rest.length + 1 ∧
      (localAllow rule key now all).2.hits key = oldest :: rest := by
  unfold localAllow at h ⊢
  dsimp only at h ⊢
  split at h
  · rename_i hfull
    obtain ⟨oldest, hhead, hverdict⟩ := map_eq_some_iff.mp h
    obtain ⟨rest, hrest⟩ := head?_eq_some_iff.mp hhead
    have hwhole : all.bounded.hits key = all.hits key := by
      refine hits_bounded_of_not_lt fun hlarge => ?_
      simp [hits_bounded_of_lt hlarge, inWindow] at hrest
    refine ⟨oldest, rest, hwhole ▸ hrest, ?_, ?_, ?_⟩
    · simpa using hverdict.symm
    · simpa [hrest] using hfull
    · rw [if_pos hfull, hrest]
      simp [LocalHits.hits]
  · simp at h

/-- The head has left the window by the time that is answered only if less than a second was
left. -/
theorem lt_max_one_floor_iff (left : Instant) : left < (max 1 ⌊left⌋ : ℤ) ↔ left < 1 := by
  constructor
  · intro h
    by_contra hone
    rw [not_lt] at hone
    have hfloor : 1 ≤ ⌊left⌋ := Int.le_floor.mpr (by simpa using hone)
    rw [max_eq_right hfloor] at h
    exact absurd (Int.floor_le left) (not_le.mpr h)
  · intro h
    have hle : ((1 : ℤ) : ℚ) ≤ (max 1 ⌊left⌋ : ℤ) := Int.cast_le.mpr (le_max_left _ _)
    rw [Int.cast_one] at hle
    exact lt_of_lt_of_le h hle

theorem length_inWindow_lt_iff {limit : ℕ} {rule : Rule} {now oldest : Instant}
    {rest : List Instant} (hlen : rest.length + 1 = limit) :
    (inWindow rule now (oldest :: rest)).length < limit ↔ oldest < now - rule.window := by
  by_cases hold : oldest < now - rule.window
  · have hrest := (dropWhile_sublist (l := rest) (p := (· < now - rule.window))).length_le
    simp only [inWindow, dropWhile_cons, hold, decide_true, if_true, iff_true]
    omega
  · simp [inWindow, hold, hlen]

/-- **What `retry_after` is worth.**  After any calls, a call that the script refuses and that comes
back when it was told to is accepted exactly when the limit is not zero.  One that `_local_allow`
refuses is accepted then exactly when the oldest timestamp had less than a second left in the
window, or the worker has dropped its map meanwhile. -/
theorem retry_after_honoured_iff (rule : κ → Rule) :
    (∀ (limit window : ℕ) (es : List Eval) (e : Eval) (r : ℤ) (clock : Instant),
      (script limit window e (history limit window es).1).1 = ⟨false, r⟩ →
      ((script limit window ⟨e.now + r, clock⟩
          (script limit window e (history limit window es).1).2).1.accepted = true ↔ 0 < limit)) ∧
    ∀ (before others : List (κ × Instant)) (key : κ) (t : Instant) (r : ℤ),
      (localAllow rule key t (localHistory rule before)).1 = some ⟨false, r⟩ →
      (∀ c ∈ others, c.1 ≠ key) →
      ((localAllow rule key (t + r) (localHistory rule (others ++ (key, t) :: before))).1 =
          some ⟨true, 0⟩ ↔ Overflows rule ((key, t) :: before) others ∨
        ∃ oldest ∈ (inWindow (rule key) t ((localHistory rule before).hits key)).head?,
          oldest + (rule key).window - t < 1) := by
  refine ⟨fun limit window es e r clock h => script_retry (card_history_le limit window es) h clock,
    fun before others key t r hrefused hothers => ?_⟩
  obtain ⟨oldest, rest, hold, hr, hfull, hafter⟩ := localAllow_refused hrefused
  obtain ⟨hover, hkeep⟩ := hits_of_others rule ((key, t) :: before) hothers
  have hlen : rest.length + 1 = (rule key).limit := by
    have hsub := (dropWhile_sublist (l := (localHistory rule before).hits key)
      (p := (· < t - (rule key).window))).length_le
    have hmost := hsub.trans (length_localHistory_le rule before key)
    have hcons := congrArg length hold
    simp only [inWindow, length_cons] at hcons
    omega
  rw [localAllow_accepted_iff, hold]
  by_cases hflow : Overflows rule ((key, t) :: before) others
  · have hpos : 0 < (rule key).limit := by omega
    simpa [hover hflow, inWindow, hflow] using hpos
  · have hnow : (localHistory rule ((key, t) :: before)).hits key = oldest :: rest := hafter
    rw [hkeep hflow, hnow, length_inWindow_lt_iff hlen]
    simp only [hflow, false_or, head?_cons, mem_some_iff, exists_eq_left']
    rw [← lt_max_one_floor_iff, ← hr]
    constructor <;> intro h <;> linarith

/-- Under a limit of one in ten seconds: the second call is told to wait a second, and less was
left. -/
theorem retry_after_honoured_iff_soon :
    let rule : ℕ → Rule := fun _ => ⟨1, 10⟩
    (localAllow rule 0 (19 / 2 + 1) (localHistory rule [(0, 19 / 2), (0, 0)])).1 =
      some ⟨true, 0⟩ := by
  have h := (retry_after_honoured_iff fun _ : ℕ => (⟨1, 10⟩ : Rule)).2
    [(0, 0)] [] 0 (19 / 2) 1 (by decide +kernel) (by decide)
  have hgone : ∃ oldest ∈ (inWindow ⟨1, 10⟩ (19 / 2)
      ((localHistory (fun _ : ℕ => ⟨1, 10⟩) [(0, 0)]).hits 0)).head?,
      oldest + ((10 : ℕ) : ℚ) - 19 / 2 < 1 := ⟨0, by decide +kernel, by norm_num⟩
  simpa using h.mpr (.inr hgone)

/-- Told to wait eight seconds when eight and a half are left. -/
theorem local_retry_after_too_short :
    let rule : ℕ → Rule := fun _ => ⟨1, 10⟩
    (localAllow rule 0 (3 / 2) (localHistory rule [(0, 0)])).1 = some ⟨false, 8⟩ ∧
    (localAllow rule 0 (3 / 2 + 8) (localHistory rule [(0, 3 / 2), (0, 0)])).1 ≠
      some ⟨true, 0⟩ := by
  decide +kernel

end Local

end RcqServer.RateLimit
