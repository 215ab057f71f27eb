import RcqServer.ReadCommitted.Custody
import RcqServer.Sessions.Parts

/-!
# A proof is spent once

A rotation that is signed claims the nonce of its proof in Redis before it commits, and gives it back
if the commit fails.  The key lives for half an hour; a proof is accepted for ten minutes before and
after its timestamp.  Between them lies the room for a request that is slow: from the look at the
clock to the claim it may take as long as the timestamp allows, and a claim is to be given back while
it is still the request's own.
-/

namespace RcqServer.Sessions

open ReadCommitted Prog List Option Function Table

/-- Until then the nonce of a proof with this timestamp cannot be claimed twice. -/
def guardedUntil (ts : ℤ) : ℤ := ts + (nonceTtl - reissueProofSkew)

/-- When the claim runs out. -/
def Claim.lapses (c : Claim) : ℕ := c.claimedAt + nonceTtl

/-- The nonce that a rotation presents. -/
def Request.presents : Request → Option NonceKey
  | .reissue _ body _ => body.proof.decode.map fun p => (p.oldKey, p.nonce)
  | _ => none

/-- The proofs that committed rotations have spent, with their timestamps. -/
def Ext.spentProofs (e : Ext) : List (NonceKey × ℤ) := e.rotations.filterMap Rotation.proof

namespace Nonces

/-- A claim is made while the nonce of its proof is guarded, and given back before it runs out. -/
def inTime (e : Ext) : Label → Bool
  | .rotate _ _ (.claim _ ts) => decide ((e.now : ℤ) < guardedUntil ts)
  | .rotate _ _ (.release claimedAt) => decide (e.now < claimedAt + nonceTtl)
  | _ => true

variable {e e' : Ext} {own : ℕ → Option Claim} {n : ℕ} {c : Claim}

/-! ## The invariant -/

/-- The key of a nonce is there, and stays until some time. -/
abbrev Kept (e : Ext) (nonce : NonceKey) (t : ℕ) : Prop :=
  Expiring.Keeps (fun _ => True) t (e.nonces.get nonce)

structure Inv (e : Ext) (own : ℕ → Option Claim) : Prop where
  /-- A claim outlives the time in which its proof could be claimed again. -/
  fresh : ∀ n c, own n = some c → guardedUntil c.ts ≤ c.lapses
  live : ∀ n c, own n = some c → e.now < c.lapses → Kept e c.nonce c.lapses
  apart : ∀ n m c d, own n = some c → own m = some d → n ≠ m → e.now < c.lapses →
    e.now < d.lapses → c.nonce ≠ d.nonce
  distinct : ∀ n m c d, own n = some c → own m = some d → n ≠ m →
    (c.nonce, c.ts) ≠ (d.nonce, d.ts)
  unspent : ∀ n c, own n = some c → (c.nonce, c.ts) ∉ e.spentProofs
  /-- The key of a spent proof stays while the proof could be claimed again, and nobody who might
  give it back holds it. -/
  spent : ∀ nonce ts, (nonce, ts) ∈ e.spentProofs → guardedUntil ts ≤ e.now ∨
    (∃ t : ℕ, guardedUntil ts ≤ t ∧ Kept e nonce t) ∧
      ∀ n c, own n = some c → e.now < c.lapses → c.nonce ≠ nonce
  nodup : e.spentProofs.Nodup
  /-- A key that is there belongs to a spent proof or to somebody. -/
  held : ∀ nonce v, Expiring.read e.now (e.nonces.get nonce) = some v →
    (∃ ts, (nonce, ts) ∈ e.spentProofs) ∨ ∃ n c, own n = some c ∧ c.nonce = nonce

theorem inv_initial (now : Time) : Inv (.initial now) fun _ => none where
  fresh _ _ h := nomatch h
  live _ _ h := nomatch h
  apart _ _ _ _ h := nomatch h
  distinct _ _ _ _ h := nomatch h
  unspent _ _ h := nomatch h
  spent _ _ h := nomatch h
  nodup := nodup_nil
  held _ _ h := nomatch h

/-- Nonces and spent proofs are left alone, and time does not go back. -/
structure Idle (e e' : Ext) : Prop where
  now : e.now ≤ e'.now
  nonces : e'.nonces = e.nonces
  proofs : e'.spentProofs = e.spentProofs

theorem Idle.refl (e : Ext) : Idle e e := ⟨le_rfl, rfl, rfl⟩

theorem Idle.of_aside (h : Aside e e') : Idle e e' :=
  ⟨h.now.ge, h.nonces, by rw [Ext.spentProofs, h.rotations, Ext.spentProofs]⟩

theorem Inv.idle (h : Inv e own) (hidle : Idle e e') : Inv e' own where
  fresh := h.fresh
  live n c hc hlt := by
    rw [Kept, hidle.nonces]
    exact h.live n c hc (hidle.now.trans_lt hlt)
  apart n m c d hc hd hnm hlt hlt' :=
    h.apart n m c d hc hd hnm (hidle.now.trans_lt hlt) (hidle.now.trans_lt hlt')
  distinct := h.distinct
  unspent n c hc := hidle.proofs ▸ h.unspent n c hc
  spent nonce ts hspent := by
    rcases h.spent nonce ts (hidle.proofs ▸ hspent) with hpast | ⟨⟨t, ht, hkept⟩, hnobody⟩
    · exact .inl (hpast.trans (Int.ofNat_le.mpr hidle.now))
    · refine .inr ⟨⟨t, ht, by rwa [Kept, hidle.nonces]⟩, fun n c hc hlt => ?_⟩
      exact hnobody n c hc (hidle.now.trans_lt hlt)
  nodup := hidle.proofs ▸ h.nodup
  held nonce v hread := by
    rw [hidle.nonces] at hread
    rw [hidle.proofs]
    exact h.held nonce v (Expiring.read_of_later hidle.now hread)

/-! ## Claiming, giving back, spending -/

theorem not_kept_of_free {nonce : NonceKey} (hfree : Expiring.read e.now (e.nonces.get nonce) = none)
    {t : ℕ} (ht : e.now < t) : ¬Kept e nonce t := by
  intro hkept
  obtain ⟨v, hv, -⟩ := hkept.read ht
  rw [hfree] at hv
  cases hv

theorem update_eq_some {o : Option Claim} {m : ℕ} {d : Claim} :
    update own n o m = some d ↔ m = n ∧ o = some d ∨ m ≠ n ∧ own m = some d := by
  by_cases hm : m = n
  · subst hm
    simp
  · simp [hm]

/-- What is held after giving something up was held before. -/
theorem of_update_none {m : ℕ} {d : Claim} (h : update own n none m = some d) :
    m ≠ n ∧ own m = some d := by
  rcases update_eq_some.mp h with ⟨-, hnone⟩ | hkept
  · cases hnone
  · exact hkept

theorem Inv.claim (h : Inv e own) (hn : own n = none) {nonce : NonceKey} {ts : ℤ}
    (hfree : Expiring.read e.now (e.nonces.get nonce) = none)
    (hguarded : (e.now : ℤ) < guardedUntil ts) (hfresh : ts ≤ e.now + reissueProofSkew) :
    Inv { e with nonces := e.nonces.set nonce (some ⟨(), some (e.now + nonceTtl)⟩) }
      (update own n (some ⟨nonce, ts, e.now⟩)) := by
  have hclaim : guardedUntil ts ≤ (⟨nonce, ts, e.now⟩ : Claim).lapses := by
    simp only [guardedUntil, Claim.lapses, Nat.cast_add]
    omega
  have hkept : Kept { e with nonces := e.nonces.set nonce (some ⟨(), some (e.now + nonceTtl)⟩) }
      nonce (e.now + nonceTtl) := by
    refine ⟨⟨(), some (e.now + nonceTtl)⟩, get_set_self _ _ _, trivial, fun y hy => ?_⟩
    exact (some.inj hy).le
  -- whoever holds the nonce already has lost it
  have hlost : ∀ m d, own m = some d → d.nonce = nonce → ¬e.now < d.lapses := by
    rintro m d hd rfl hlt
    exact not_kept_of_free hfree hlt (h.live m d hd hlt)
  have hother : ∀ m d, own m = some d → (d.nonce, d.ts) ≠ (nonce, ts) := by
    rintro m d hd heq
    obtain ⟨rfl, rfl⟩ := Prod.mk.inj heq
    exact hlost m d hd rfl (Int.ofNat_lt.mp (hguarded.trans_le (h.fresh m d hd)))
  refine ⟨?_, ?_, ?_, ?_, ?_, ?_, h.nodup, ?_⟩
  · intro m d hd
    rcases update_eq_some.mp hd with ⟨rfl, heq⟩ | ⟨-, hd⟩
    · obtain rfl := some.inj heq
      exact hclaim
    · exact h.fresh m d hd
  · intro m d hd hlt
    rcases update_eq_some.mp hd with ⟨rfl, heq⟩ | ⟨-, hd⟩
    · obtain rfl := some.inj heq
      exact hkept
    · have hne : d.nonce ≠ nonce := fun heq => hlost m d hd heq hlt
      rw [Kept, get_set_ne _ hne]
      exact h.live m d hd hlt
  · intro m m' d d' hd hd' hmm hlt hlt'
    rcases update_eq_some.mp hd with ⟨rfl, heq⟩ | ⟨-, hold⟩ <;>
      rcases update_eq_some.mp hd' with ⟨rfl, heq'⟩ | ⟨-, hold'⟩
    · exact absurd rfl hmm
    · obtain rfl := some.inj heq
      exact fun hsame => hlost m' d' hold' hsame.symm hlt'
    · obtain rfl := some.inj heq'
      exact fun hsame => hlost m d hold hsame hlt
    · exact h.apart m m' d d' hold hold' hmm hlt hlt'
  · intro m m' d d' hd hd' hmm
    rcases update_eq_some.mp hd with ⟨rfl, heq⟩ | ⟨-, hold⟩ <;>
      rcases update_eq_some.mp hd' with ⟨rfl, heq'⟩ | ⟨-, hold'⟩
    · exact absurd rfl hmm
    · obtain rfl := some.inj heq
      exact (hother m' d' hold').symm
    · obtain rfl := some.inj heq'
      exact hother m d hold
    · exact h.distinct m m' d d' hold hold' hmm
  · intro m d hd hspent
    rcases update_eq_some.mp hd with ⟨rfl, heq⟩ | ⟨-, hd⟩
    · obtain rfl := some.inj heq
      -- the proof is still guarded, so its key would be there
      rcases h.spent nonce ts hspent with hpast | ⟨⟨t, ht, hkept⟩, -⟩
      · exact absurd hguarded (not_lt.mpr hpast)
      · exact not_kept_of_free hfree (Int.ofNat_lt.mp (hguarded.trans_le ht)) hkept
    · exact h.unspent m d hd hspent
  · intro nonce' ts' hspent
    rcases h.spent nonce' ts' hspent with hpast | ⟨⟨t, ht, hkept'⟩, hnobody⟩
    · exact .inl hpast
    by_cases hsame : nonce' = nonce
    · subst hsame
      -- the key of that proof has run out
      have hle : t ≤ e.now := not_lt.mp fun hlt => not_kept_of_free hfree hlt hkept'
      exact .inl (ht.trans (Int.ofNat_le.mpr hle))
    · refine .inr ⟨⟨t, ht, ?_⟩, fun m d hd hlt => ?_⟩
      · rw [Kept, get_set_ne _ hsame]
        exact hkept'
      · rcases update_eq_some.mp hd with ⟨rfl, heq⟩ | ⟨-, hd⟩
        · obtain rfl := some.inj heq
          exact Ne.symm hsame
        · exact hnobody m d hd hlt
  · intro nonce' v hread
    by_cases hsame : nonce' = nonce
    · subst hsame
      exact .inr ⟨n, _, update_self n _ own, rfl⟩
    · rw [get_set_ne _ hsame] at hread
      refine (h.held nonce' v hread).imp id fun ⟨m, d, hd, hnonce⟩ => ⟨m, d, ?_, hnonce⟩
      refine update_eq_some.mpr (.inr ⟨?_, hd⟩)
      rintro rfl
      rw [hn] at hd
      cases hd

/-- A claim that has not run out is given back: the key was nobody else's. -/
theorem Inv.release (h : Inv e own) (hn : own n = some c) (hlt : e.now < c.lapses) :
    Inv { e with nonces := e.nonces.set c.nonce none } (update own n none) where
  fresh m d hd := h.fresh m d (of_update_none hd).2
  live m d hd hlt' := by
    obtain ⟨hmn, hd⟩ := of_update_none hd
    have hne : d.nonce ≠ c.nonce := h.apart m n d c hd hn hmn hlt' hlt
    rw [Kept, get_set_ne _ hne]
    exact h.live m d hd hlt'
  apart m m' d d' hd hd' := h.apart m m' d d' (of_update_none hd).2 (of_update_none hd').2
  distinct m m' d d' hd hd' := h.distinct m m' d d' (of_update_none hd).2 (of_update_none hd').2
  unspent m d hd := h.unspent m d (of_update_none hd).2
  spent nonce ts hspent := by
    rcases h.spent nonce ts hspent with hpast | ⟨⟨t, ht, hkept⟩, hnobody⟩
    · exact .inl hpast
    · have hne : c.nonce ≠ nonce := hnobody n c hn hlt
      refine .inr ⟨⟨t, ht, ?_⟩, fun m d hd => hnobody m d (of_update_none hd).2⟩
      rw [Kept, get_set_ne _ hne.symm]
      exact hkept
  nodup := h.nodup
  held nonce v hread := by
    by_cases hsame : nonce = c.nonce
    · subst hsame
      rw [get_set_self] at hread
      cases hread
    · rw [get_set_ne _ hsame] at hread
      refine (h.held nonce v hread).imp id fun ⟨m, d, hd, hnonce⟩ => ⟨m, d, ?_, hnonce⟩
      refine update_eq_some.mpr (.inr ⟨?_, hd⟩)
      rintro rfl
      rw [hn] at hd
      exact hsame (hnonce.symm.trans (congrArg Claim.nonce (some.inj hd).symm))

/-- The rotation is committed: its proof is spent. -/
theorem Inv.spend (h : Inv e own) (hn : own n = some c) (hnow : e'.now = e.now)
    (hnonces : e'.nonces = e.nonces) (hproofs : e'.spentProofs = (c.nonce, c.ts) :: e.spentProofs) :
    Inv e' (update own n none) where
  fresh m d hd := h.fresh m d (of_update_none hd).2
  live m d hd hlt := by
    rw [hnow] at hlt
    rw [Kept, hnonces]
    exact h.live m d (of_update_none hd).2 hlt
  apart m m' d d' hd hd' := by
    rw [hnow]
    exact h.apart m m' d d' (of_update_none hd).2 (of_update_none hd').2
  distinct m m' d d' hd hd' := h.distinct m m' d d' (of_update_none hd).2 (of_update_none hd').2
  unspent m d hd := by
    obtain ⟨hmn, hd⟩ := of_update_none hd
    rw [hproofs, mem_cons, not_or]
    exact ⟨h.distinct m n d c hd hn hmn, h.unspent m d hd⟩
  spent nonce ts hspent := by
    have hkept : ∀ nonce t, Kept e nonce t → Kept e' nonce t := fun nonce t h => by
      rwa [Kept, hnonces]
    rw [hproofs] at hspent
    rw [hnow]
    rcases mem_cons.mp hspent with heq | hspent
    · obtain ⟨rfl, rfl⟩ := Prod.mk.inj heq
      rcases Nat.lt_or_ge e.now c.lapses with hlt | hge
      · refine .inr ⟨⟨c.lapses, h.fresh n c hn, hkept _ _ (h.live n c hn hlt)⟩, ?_⟩
        intro m d hd hlt'
        obtain ⟨hmn, hd⟩ := of_update_none hd
        exact h.apart m n d c hd hn hmn hlt' hlt
      · exact .inl ((h.fresh n c hn).trans (Int.ofNat_le.mpr hge))
    · refine (h.spent nonce ts hspent).imp id fun ⟨⟨t, ht, hnonce⟩, hnobody⟩ => ?_
      exact ⟨⟨t, ht, hkept _ _ hnonce⟩, fun m d hd => hnobody m d (of_update_none hd).2⟩
  nodup := by
    rw [hproofs]
    exact nodup_cons.mpr ⟨h.unspent n c hn, h.nodup⟩
  held nonce v hread := by
    rw [hnow, hnonces] at hread
    rw [hproofs]
    rcases h.held nonce v hread with ⟨ts, hts⟩ | ⟨m, d, hd, rfl⟩
    · exact .inl ⟨ts, mem_cons_of_mem _ hts⟩
    by_cases hmn : m = n
    · subst hmn
      obtain rfl : c = d := some.inj (hn.symm.trans hd)
      exact .inl ⟨c.ts, mem_cons_self⟩
    · exact .inr ⟨m, d, update_eq_some.mpr (.inr ⟨hmn, hd⟩), rfl⟩

/-! ## The walk -/

/-- What a request holds is the claim of the nonce that it presents. -/
def custody : Custody Db Ext Label Request Claim where
  Inv s own := Inv s.ext own
  Of r c := r.presents = some c.nonce
  Later s s' := s.ext.now ≤ s'.ext.now
  Cond _ l s := inTime s.ext l

theorem coherent : custody.Coherent where
  later_refl _ := le_rfl
  later_trans _ _ _ := le_trans

theorem framed : custody.Framed (fun _ : Write => True) Idle where
  stmt _ _ _ hinv hidle := ⟨Inv.idle hinv hidle, hidle.now⟩
  commit _ _ _ _ _ hinv hidle := ⟨Inv.idle hinv hidle, hidle.now⟩

variable {r : Request} {o : Option Claim} {ws : List Write} {s : State} {α β : Type}

open Custody

/-- A part that does not touch nonces, before anything is held. -/
theorem wp_idle {p : Handler α} (hp : p.Within (fun _ => True) Idle) :
    custody.wp r p (fun _ o _ s' => o = none ∧ s.ext.now ≤ s'.ext.now) none ws s :=
  wp_mono (wp_within coherent framed hp (.inl rfl) (by simp) fun _ _ => trivial)
    fun _ _ _ _ h => ⟨h.1, h.2.2⟩

/-- A part that does not touch nonces and does not fail. -/
theorem wp_holding {p : Handler α} (hp : p.Within (fun _ => True) Idle) (hsucceeds : p.Succeeds)
    (hof : ∀ c ∈ o, r.presents = some c.nonce) : custody.wp r p (fun _ o' _ _ => o' = o) o ws s :=
  wp_mono (wp_within coherent framed hp (.inr hsucceeds) hof fun _ _ => trivial)
    fun _ _ _ _ h => h.1

theorem loadEpochs_idle : loadEpochs.Within (fun _ => True) Idle :=
  loadEpochs_within Idle.refl fun _ _ _ => ⟨le_rfl, rfl, rfl⟩

/-- Whatever is not a rotation leaves the nonces alone. -/
theorem common : Common fun {α} (p : Handler α) => p.Within (fun _ => True) Idle where
  ret _ := trivial
  raise _ := trivial
  bind hp hf := hp.bind hf
  read _ _ := Within.read Idle.refl
  aside _ _ _ hx hk db e := ⟨nofun, .of_aside (hx db e), hk db e⟩
  retireSlot _ _ := Within.write Idle.refl fun _ _ _ _ => trivial
  commitSlot := ⟨Idle.refl, trivial⟩
  loadEpochs := loadEpochs_idle
  epochCheck token := by
    refine fun _ e => ⟨nofun, ?_, trivial⟩
    dsimp only
    split
    · exact ⟨le_rfl, rfl, rfl⟩
    · exact .refl e
  mint _ _ _ _ _ := (Within.read Idle.refl).bind fun _ _ _ =>
    ⟨nofun, ⟨le_rfl, rfl, rfl⟩, trivial⟩

theorem cacheUinEpoch_idle {rotation : Option KeyBytes} {u : Uin} {epoch : ℕ} :
    (cacheUinEpoch rotation u epoch).Within (fun _ => True) Idle :=
  Within.effect fun _ _ => ⟨le_rfl, rfl, rfl⟩

theorem bumpUinEpoch_idle {rotation : Option KeyBytes} {u : Uin} :
    (bumpUinEpoch rotation u).Within (fun _ => True) Idle :=
  bumpUinEpoch_within Idle.refl (fun _ _ => trivial) rotation u

theorem burn_idle (u : Uin) : (burn u).Within (fun _ => True) Idle := by
  refine bumpUinEpoch_idle.bind fun epoch => ?_
  split
  · exact trivial
  · exact ⟨Idle.refl, cacheUinEpoch_idle⟩

theorem handOver_idle {token : Token} {c : Change} {epoch : Option ℕ} :
    (handOver token c epoch).Within (fun _ => True) Idle := by
  cases epoch with
  | some epoch =>
    exact cacheUinEpoch_idle.bind fun _ _ _ =>
      ⟨nofun, ⟨le_rfl, rfl, rfl⟩, trivial⟩
  | none =>
    exact common.uinEpoch_mint _ _ c.uin
      (fun epoch now => issueToken now c.uin epoch token.device) fun _ _ => ⟨rfl, rfl⟩

/-! ## Rotations -/

variable {token : Token} {env : ReissueEnv} {taken : List Uin} {claim : Option Claim}
  {change : Change} {verify : Verify}

/-- What is held is the claim, and the request presents its nonce. -/
def Holds (r : Request) (claim o : Option Claim) : Prop :=
  o = claim ∧ ∀ c ∈ claim, r.presents = some c.nonce

theorem holds_none (r : Request) : Holds r none none := ⟨rfl, by simp⟩

theorem claimNonce_safe {u : Uin} {key : KeyBytes} {nonce : NonceKey} {ts : ℤ}
    (hof : r.presents = some nonce) (hfresh : ts ≤ s.ext.now + reissueProofSkew) :
    custody.wp r (claimNonce (.rotate u key (.claim nonce ts)) nonce ts)
      (fun claim o _ _ => Holds r claim o) none ws s := by
  intro s' own n hlater hinv ho hcond
  have hlater : (s.ext.now : ℤ) ≤ s'.ext.now := Int.ofNat_le.mpr hlater
  cases hread : Expiring.read s'.ext.now (s'.ext.nonces.get nonce) with
  | none =>
    have hown : ∀ c ∈ some (⟨nonce, ts, s'.ext.now⟩ : Claim), r.presents = some c.nonce := by
      intro c hc
      obtain rfl := some.inj hc
      exact hof
    refine ⟨some ⟨nonce, ts, s'.ext.now⟩, ⟨?_, ?_, hown⟩, ?_⟩
    · simp only [hread]
      exact Inv.claim hinv ho hread (of_decide_eq_true hcond)
        (hfresh.trans (Int.add_le_add_right hlater _))
    · simp only [hread]
      exact le_rfl
    · simp only [hread]
      exact ⟨rfl, hown⟩
  | some v =>
    refine ⟨none, ⟨?_, ?_, by simp⟩, ?_⟩
    · simp only [hread, ← ho, update_eq_self]
      exact hinv
    · simp only [hread]
      exact le_rfl
    · simp only [hread]
      exact holds_none r

theorem judgeProof_safe {p : Proof} (hof : r.presents = some (p.oldKey, p.nonce)) :
    custody.wp r (judgeProof verify env change taken p) (fun claim o _ _ => Holds r (some claim) o)
      none ws s := by
  refine wp_raiseIf_bind rfl fun _ => wp_raiseIf_bind rfl fun _ => wp_raiseIf_bind rfl fun _ => ?_
  refine wp_seq (wp_read coherent (Q := fun now o _ (s : State) => o = none ∧ now = s.ext.now)
    (by simp) fun _ _ => ⟨rfl, rfl⟩) ?_
  rintro now o ws s ⟨rfl, rfl⟩
  refine wp_raiseIf_bind rfl fun hskew => wp_raiseIf_bind rfl fun _ => ?_
  refine wp_seq (wp_idle (s := s) (refuseTaken_within Idle.refl _ _ _)) ?_
  rintro _ o ws s' ⟨rfl, hlater⟩
  -- the clock was read before the claim
  have hfresh : p.ts ≤ s'.ext.now + reissueProofSkew := by
    have hread : -reissueProofSkew ≤ s.ext.now - p.ts := neg_le_of_abs_le (not_lt.mp hskew)
    calc p.ts ≤ s.ext.now + reissueProofSkew := by omega
      _ ≤ s'.ext.now + reissueProofSkew := Int.add_le_add_right (Int.ofNat_le.mpr hlater) _
  refine wp_seq (claimNonce_safe hof hfresh) fun claim o ws s hclaim => ?_
  cases claim with
  | none => exact hclaim.1
  | some claim => exact hclaim

theorem judge_safe {fields : ProofFields}
    (hof : ∀ p ∈ fields.decode, r.presents = some (p.oldKey, p.nonce)) :
    custody.wp r (judge verify env change taken fields) (fun claim o _ _ => Holds r claim o) none
      ws s := by
  unfold judge
  split
  · split
    · exact (rfl : (none : Option Claim) = none)
    · exact wp_seq (judgeProof_safe (hof _ ‹_›)) fun claim o ws s h => h
  · exact wp_raiseIf_bind rfl fun _ => wp_raiseIf_bind rfl fun _ => holds_none r

theorem read_succeeds {l : Label} {q : Db → Ext → α} : (read l q : Handler α).Succeeds :=
  fun _ _ => trivial

theorem write_succeeds {l : Label} {f : Db → Ext → List Write} {q : Db → Ext → α} :
    (write l f q : Handler α).Succeeds :=
  fun _ _ => trivial

theorem retireOld_succeeds (signed : Bool) : (retireOld change signed).Succeeds := by
  unfold retireOld
  split
  · exact trivial
  split
  · exact trivial
  refine read_succeeds.bind fun row => ?_
  split
  · exact write_succeeds
  split
  · exact write_succeeds
  refine read_succeeds.bind fun alive => Succeeds.bind ?_ fun _ => trivial
  unfold onlyIf
  split
  · exact write_succeeds
  · exact trivial

theorem bumpIfSigned_succeeds (signed : Bool) : (bumpIfSigned change signed).Succeeds := by
  unfold bumpIfSigned
  split
  · refine Succeeds.bind (read_succeeds.bind fun row => ?_) fun _ => trivial
    split
    · exact write_succeeds
    · exact write_succeeds
  · exact trivial

theorem failRotation_safe {c : Claim} {Q : α → Option Claim → List Write → State → Prop} :
    custody.wp r (failRotation change (some c) : Handler α) Q (some c) ws s := by
  intro s' _ s'' own n _ hinv ho hcond
  exact ⟨none, ⟨Inv.release hinv ho (of_decide_eq_true hcond), le_rfl, by simp⟩, rfl⟩

theorem applyChange_idle :
    (applyChange token env change taken none).Within (fun _ => True) Idle := by
  have hfail : (failRotation change none : Handler Token).Within (fun _ => True) Idle := trivial
  refine (Within.write Idle.refl fun _ _ _ _ => trivial).bind fun _ => ?_
  refine (retireOld_within Idle.refl (fun _ _ => trivial) _ _).bind fun retired => ?_
  split
  · exact hfail
  refine (bumpIfSigned_within Idle.refl (fun _ _ => trivial) _ _).bind fun epoch => ?_
  split
  · exact hfail
  split
  · exact hfail
  · exact ⟨fun _ => ⟨le_rfl, rfl, rfl⟩, handOver_idle⟩

theorem applyChange_safe (hof : ∀ c ∈ claim, r.presents = some c.nonce) :
    custody.wp r (applyChange token env change taken claim) (fun _ o _ _ => o = none) claim ws s := by
  cases claim with
  | none => exact wp_mono (wp_idle applyChange_idle) fun _ _ _ _ h => h.1
  | some c =>
    refine wp_seq (wp_holding (Within.write Idle.refl fun _ _ _ _ => trivial)
      write_succeeds hof) ?_
    rintro _ o ws s rfl
    refine wp_seq (wp_holding (retireOld_within Idle.refl (fun _ _ => trivial) _ _)
      (retireOld_succeeds _) hof) ?_
    rintro retired o ws s rfl
    split
    · exact failRotation_safe
    refine wp_seq (wp_holding (bumpIfSigned_within Idle.refl (fun _ _ => trivial) _ _)
      (bumpIfSigned_succeeds _) hof) ?_
    rintro epoch o ws s rfl
    split
    · exact failRotation_safe
    split
    · exact failRotation_safe
    intro s' own n _ hinv ho _
    refine ⟨none, ⟨Inv.spend hinv ho rfl rfl rfl, le_rfl, by simp⟩, ?_⟩
    exact wp_mono (wp_idle handOver_idle) fun _ _ _ _ h => h.1

theorem reissue_safe {body : ReissueIn} (hr : r = .reissue token body env) :
    custody.wp r (reissue verify token body env) (fun _ o _ _ => o = none) none ws s := by
  have hof : ∀ p ∈ body.proof.decode, r.presents = some (p.oldKey, p.nonce) := by
    intro p hp
    rw [hr, Request.presents, mem_def.mp hp, map_some]
  refine wp_seq (wp_idle (common.authorizeSession token)) ?_
  rintro u o ws s ⟨rfl, -⟩
  split
  · refine wp_seq (wp_idle (common.read _ _)) ?_
    rintro user o ws s ⟨rfl, -⟩
    split
    · exact (rfl : (none : Option Claim) = none)
    split
    · split
      · exact (rfl : (none : Option Claim) = none)
      · exact wp_mono (wp_idle (common.uinEpoch_mint _ _ u
          (fun epoch now => issueToken now u epoch token.device) fun _ _ => ⟨rfl, rfl⟩))
          fun _ _ _ _ h => h.1
    · refine wp_seq (wp_idle (common.read _ _)) ?_
      rintro taken o ws s ⟨rfl, -⟩
      refine wp_seq (judge_safe hof) ?_
      rintro claim o ws s ⟨rfl, hclaim⟩
      exact applyChange_safe hclaim
  · exact (rfl : (none : Option Claim) = none)

theorem handler_safe (cfg : Config) (verify : Verify) (r : Request) (s : State) :
    custody.wp r (handler cfg verify r) (fun _ o _ _ => o = none) none [] s := by
  by_cases hr : ∃ token body env, r = .reissue token body env
  · obtain ⟨token, body, env, rfl⟩ := hr
    refine wp_seq (reissue_safe rfl) fun _ o ws s h => h
  · have hidle : (handler cfg verify r).Within (fun _ => True) Idle :=
      common.handler cfg verify r (fun token body env h => absurd ⟨token, body, env, h⟩ hr)
        burn_idle fun seconds => Within.effect fun _ e => ⟨Nat.le_add_right _ _, rfl, rfl⟩
    exact wp_mono (wp_idle hidle) fun _ _ _ _ h => h.1

end Nonces

end RcqServer.Sessions
