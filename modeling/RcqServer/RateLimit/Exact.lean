import RcqServer.RateLimit.Limiter

/-!
# What the limiter lets through

The sorted set has one member for a timestamp, however many requests were accepted with it.  So it
never counts a request that was not accepted, and counts all of those in the window when no two have
the same timestamp.
-/

namespace RcqServer.RateLimit

open List Option

variable {limit window : ℕ} {e : Eval} {es : List Eval} {key : Option Bucket} {acc : List Eval}

/-- The number of evaluations in `(t - window, t]`. -/
def countIn (window : ℕ) (t : Instant) (acc : List Eval) : ℕ :=
  (acc.filter fun a => t - window < a.now ∧ a.now ≤ t).length

/-! ## Nothing is counted that was not accepted -/

/-- Every timestamp under the key is that of an accepted evaluation. -/
def Sound (key : Option Bucket) (acc : List Eval) : Prop :=
  ∀ b ∈ key, ∀ x ∈ b.hits.entries, x.1 = x.2 ∧ ∃ a ∈ acc, a.now = x.1

theorem Sound.swept (h : Sound key acc) : ∀ x ∈ (swept window e key).entries,
      x.1 = x.2 ∧ e.now - window < x.1 ∧ ∃ a ∈ acc, a.now = x.1 := by
  intro x hx
  obtain ⟨hx, hcut⟩ := SortedSet.mem_removeUpTo.mp hx
  cases hlive : live e.clock key with
  | none =>
    rw [hlive] at hx
    exact absurd hx not_mem_nil
  | some b =>
    rw [hlive] at hx
    obtain ⟨heq, ha⟩ := h b (filter_eq_some_iff.mp hlive).1 x hx
    exact ⟨heq, heq ▸ hcut, ha⟩

theorem Sound.script (h : Sound key acc) : Sound (script limit window e key).2
      (if (script limit window e key).1.accepted then e :: acc else acc) := by
  unfold RateLimit.script
  dsimp only
  split
  · intro b hb x hx
    obtain ⟨b', -, rfl⟩ := map_eq_some_iff.mp hb
    obtain ⟨heq, -, ha⟩ := h.swept x hx
    exact ⟨heq, ha⟩
  · rintro b hb x hx
    cases hb
    rcases SortedSet.mem_add.mp hx with rfl | ⟨hx, -⟩
    · exact ⟨rfl, e, mem_cons_self, rfl⟩
    · obtain ⟨heq, -, a, ha, hax⟩ := h.swept x hx
      exact ⟨heq, a, mem_cons_of_mem _ ha, hax⟩

theorem sound_history (es : List Eval) :
    Sound (history limit window es).1 (history limit window es).2 := by
  induction es with
  | nil => exact fun b hb => absurd hb (not_mem_none b)
  | cons e before ih => exact ih.script

/-- The script counts at most the accepted evaluations of the window that ends now. -/
theorem card_swept_le (h : Sound key acc) (hpast : ∀ a ∈ acc, a.now ≤ e.now) :
    (swept window e key).card ≤ countIn window e.now acc := by
  have hsub : (swept window e key).members ⊆
      (acc.filter fun a => e.now - window < a.now ∧ a.now ≤ e.now).map Eval.now := by
    intro m hm
    obtain ⟨x, hx, rfl⟩ := mem_map.mp hm
    obtain ⟨-, hcut, a, ha, hax⟩ := h.swept x hx
    refine mem_map.mpr ⟨a, mem_filter.mpr ⟨ha, ?_⟩, hax⟩
    exact decide_eq_true ⟨hax ▸ hcut, hpast a ha⟩
  calc (swept window e key).card
      = (swept window e key).members.length := (SortedSet.length_members _).symm
    _ ≤ ((acc.filter fun a => e.now - window < a.now ∧ a.now ≤ e.now).map Eval.now).length :=
        (subperm_of_subset (swept window e key).nodup hsub).length_le
    _ = countIn window e.now acc := length_map _

/-! ## Everything in the window is counted -/

/-- Redis runs the script at most five seconds after the worker has looked at its clock. -/
def Prompt (e : Eval) : Prop := e.now ≤ e.clock ∧ e.clock ≤ e.now + 5

/-- Whatever was accepted is under the key as long as it is in the window. -/
def Complete (window : ℕ) (es : List Eval) (key : Option Bucket) (acc : List Eval) : Prop :=
  ∀ a ∈ acc, (∀ e ∈ es, e.now - window < a.now) →
    ∃ b ∈ key, (a.now, a.now) ∈ b.hits.entries ∧ a.now + (window + 5) ≤ b.expires

theorem Complete.live (h : Complete window es key acc) (hprompt : Prompt e)
    (hlast : ∀ b ∈ es, b.now ≤ e.now) {a : Eval} (ha : a ∈ acc) (hcut : e.now - window < a.now) :
    ∃ b ∈ live e.clock key, (a.now, a.now) ∈ b.hits.entries ∧ a.now + (window + 5) ≤ b.expires := by
  obtain ⟨b, hb, hmem, hexp⟩ := h a ha fun e' he' => by linarith [hlast e' he']
  have halive : e.clock < b.expires := by
    calc e.clock ≤ e.now + 5 := hprompt.2
      _ < a.now + (window + 5) := by linarith
      _ ≤ b.expires := hexp
  exact ⟨b, filter_eq_some_iff.mpr ⟨hb, decide_eq_true halive⟩, hmem, hexp⟩

theorem Complete.swept (h : Complete window es key acc) (hprompt : Prompt e)
    (hlast : ∀ b ∈ es, b.now ≤ e.now) {a : Eval} (ha : a ∈ acc) (hcut : e.now - window < a.now) :
    (a.now, a.now) ∈ (swept window e key).entries := by
  obtain ⟨b, hb, hmem, -⟩ := h.live hprompt hlast ha hcut
  refine SortedSet.mem_removeUpTo.mpr ⟨?_, hcut⟩
  rw [mem_def.mp hb]
  exact hmem

theorem Complete.script (h : Complete window es key acc) (hprompt : Prompt e)
    (hlast : ∀ b ∈ es, b.now ≤ e.now) (hpast : ∀ a ∈ acc, a.now ≤ e.now) :
    Complete window (e :: es) (script limit window e key).2
      (if (script limit window e key).1.accepted then e :: acc else acc) := by
  unfold RateLimit.script
  dsimp only
  split
  · intro a ha hcut
    have hnow : e.now - window < a.now := hcut e mem_cons_self
    obtain ⟨b, hb, -, hexp⟩ := h.live hprompt hlast ha hnow
    refine ⟨_, mem_def.mpr (map_eq_some_iff.mpr ⟨b, hb, rfl⟩), ?_, hexp⟩
    exact h.swept hprompt hlast ha hnow
  · intro a ha hcut
    refine ⟨_, rfl, SortedSet.mem_add.mpr ?_, ?_⟩
    · by_cases hnew : a.now = e.now
      · exact .inl (by rw [hnew])
      · rcases mem_cons.mp ha with rfl | ha
        · exact absurd rfl hnew
        · exact .inr ⟨h.swept hprompt hlast ha (hcut e mem_cons_self), hnew⟩
    · have hle : a.now ≤ e.now := by
        rcases mem_cons.mp ha with rfl | ha
        · exact le_rfl
        · exact hpast a ha
      dsimp only
      linarith [hprompt.1]

/-- Accepted evaluations are among the evaluations. -/
theorem history_sublist (es : List Eval) : (history limit window es).2.Sublist es := by
  induction es with
  | nil => exact Sublist.refl _
  | cons e before ih =>
    simp only [history]
    split
    · exact ih.cons_cons e
    · exact ih.cons e

/-! ## Histories -/

/-- The timestamps never go back. -/
def Ordered (es : List Eval) : Prop := es.Pairwise fun later e => e.now ≤ later.now

/-- The timestamps differ. -/
def Distinct (es : List Eval) : Prop := es.Pairwise fun later e => e.now ≠ later.now

instance (es : List Eval) : Decidable (Ordered es) :=
  inferInstanceAs (Decidable (es.Pairwise fun later e => e.now ≤ later.now))

instance (es : List Eval) : Decidable (Distinct es) :=
  inferInstanceAs (Decidable (es.Pairwise fun later e => e.now ≠ later.now))

instance (e : Eval) : Decidable (Prompt e) := inferInstanceAs (Decidable (_ ∧ _))

theorem complete_history (hordered : Ordered es) (hprompt : ∀ e ∈ es, Prompt e) :
    Complete window es (history limit window es).1 (history limit window es).2 := by
  induction es with
  | nil => exact fun a ha => absurd ha not_mem_nil
  | cons e before ih =>
    obtain ⟨hlast, hordered⟩ := pairwise_cons.mp hordered
    refine (ih hordered fun b hb => hprompt b (mem_cons_of_mem _ hb)).script
      (hprompt e mem_cons_self) hlast fun a ha => hlast a ?_
    exact (history_sublist before).subset ha

/-- What the script counts, when it has all timestamps of the window and they differ, or when it
counts none. -/
theorem countIn_le_card (hcomplete : Complete window es key acc) (hprompt : Prompt e)
    (hlast : ∀ b ∈ es, b.now ≤ e.now) {t : Instant} (ht : e.now ≤ t)
    (hdistinct : Distinct acc ∨ (swept window e key).card = 0) :
    countIn window t acc ≤ (swept window e key).card := by
  have hmem : ∀ a ∈ acc.filter fun a => t - window < a.now ∧ a.now ≤ t,
      (a.now, a.now) ∈ (swept window e key).entries := by
    intro a ha
    obtain ⟨ha, hin⟩ := mem_filter.mp ha
    have hcut : e.now - window < a.now := by linarith [(of_decide_eq_true hin).1]
    exact hcomplete.swept hprompt hlast ha hcut
  rcases hdistinct with hdistinct | hzero
  · have hnodup : ((acc.filter fun a => t - window < a.now ∧ a.now ≤ t).map Eval.now).Nodup := by
      rw [Nodup, pairwise_map]
      exact (hdistinct.sublist filter_sublist).imp Ne.symm
    have hsub : (acc.filter fun a => t - window < a.now ∧ a.now ≤ t).map Eval.now ⊆
        (swept window e key).members := by
      intro m hm
      obtain ⟨a, ha, rfl⟩ := mem_map.mp hm
      exact mem_map.mpr ⟨_, hmem a ha, rfl⟩
    calc countIn window t acc
        = ((acc.filter fun a => t - window < a.now ∧ a.now ≤ t).map Eval.now).length :=
          (length_map _).symm
      _ ≤ (swept window e key).members.length := (subperm_of_subset hnodup hsub).length_le
      _ = (swept window e key).card := SortedSet.length_members _
  · have hnil : (swept window e key).entries = [] := eq_nil_of_length_eq_zero hzero
    have hnone : acc.filter (fun a => t - window < a.now ∧ a.now ≤ t) = [] := by
      refine eq_nil_iff_forall_not_mem.mpr fun a ha => ?_
      exact not_mem_nil (hnil ▸ hmem a ha)
    rw [countIn, hnone]
    exact Nat.zero_le _

theorem countIn_history_le (hordered : Ordered es) (hprompt : ∀ e ∈ es, Prompt e)
    (hdistinct : limit = 1 ∨ Distinct es) (t : Instant) :
    countIn window t (history limit window es).2 ≤ limit := by
  induction es with
  | nil => exact Nat.zero_le _
  | cons e before ih =>
    obtain ⟨hlast, hordered⟩ := pairwise_cons.mp hordered
    have hprompt' : ∀ b ∈ before, Prompt b := fun b hb => hprompt b (mem_cons_of_mem _ hb)
    have hrest := ih hordered hprompt' (hdistinct.imp id fun h => (pairwise_cons.mp h).2)
    simp only [history, script]
    split
    · simpa using hrest
    · rename_i hroom
      rw [Nat.not_le] at hroom
      simp only [if_true, countIn, filter_cons]
      split
      · -- the new one is in the interval, which then lies in the window that the script has counted
        rename_i hin
        have ht : e.now ≤ t := (of_decide_eq_true hin).2
        have hbefore : Distinct (history limit window before).2 ∨
            (swept window e (history limit window before).1).card = 0 := by
          refine hdistinct.symm.imp (fun h => ?_) fun h => by omega
          exact (pairwise_cons.mp h).2.sublist (history_sublist before)
        have hcount := countIn_le_card (complete_history hordered hprompt')
          (hprompt e mem_cons_self) hlast ht hbefore
        rw [length_cons]
        exact Nat.succ_le_of_lt (Nat.lt_of_le_of_lt hcount hroom)
      · exact hrest

/-- **The limiter.**  Over every sequence of evaluations with timestamps that do not go back: when
each reaches Redis within five seconds and no two have the same timestamp, or the limit is one, at
most `limit` are accepted in any `(t - window, t]`; and an evaluation is refused only if `limit`
accepted ones lie in the window that ends at it. -/
theorem limiter_counts_window (limit window : ℕ) {es : List Eval} (hordered : Ordered es) :
    ((∀ e ∈ es, Prompt e) → (limit = 1 ∨ Distinct es) →
      ∀ t, countIn window t (history limit window es).2 ≤ limit) ∧ ∀ e, (∀ b ∈ es, b.now ≤ e.now) →
      (script limit window e (history limit window es).1).1.accepted = false →
      limit ≤ countIn window e.now (history limit window es).2 := by
  refine ⟨fun hprompt hdistinct t => countIn_history_le hordered hprompt hdistinct t, ?_⟩
  intro e hlast hrefused
  have hfull : limit ≤ (swept window e (history limit window es).1).card := by
    by_contra hroom
    simp [script, hroom] at hrefused
  calc limit ≤ (swept window e (history limit window es).1).card := hfull
    _ ≤ countIn window e.now (history limit window es).2 :=
        card_swept_le (sound_history es) fun a ha => hlast a ((history_sublist es).subset ha)

/-- Three requests in ten seconds under a limit of two; the third is refused. -/
theorem limiter_counts_window_of_three :
    let es : List Eval := [⟨102, 102⟩, ⟨101, 103⟩]
    countIn 10 102 (history 2 10 es).2 ≤ 2 ∧ 2 ≤ countIn 10 105 (history 2 10 es).2 := by
  have hordered : Ordered [⟨102, 102⟩, ⟨101, 103⟩] := by decide +kernel
  have h := limiter_counts_window 2 10 hordered
  exact ⟨h.1 (by decide +kernel) (.inr (by decide +kernel)) 102,
    h.2 ⟨105, 105⟩ (by decide +kernel) (by decide +kernel)⟩

/-- Three requests with one timestamp, all of which are accepted under a limit of two. -/
theorem same_timestamp_exceeds_limit :
    let es : List Eval := [⟨100, 100⟩, ⟨100, 100⟩, ⟨100, 100⟩]
    Ordered es ∧ (∀ e ∈ es, Prompt e) ∧ 2 < countIn 10 100 (history 2 10 es).2 := by
  decide +kernel

end RcqServer.RateLimit
