import RcqServer.Slowmode.Posts
import RcqServer.ReadCommitted.Custody

/-!
# Who pays for a post

A purchase arms one pass, on the other path, and a pass is taken once.  So on each path there are
never more posts that rode no token than slots were bought.  Between its purchase and the pass that it
arms a post holds something that lies nowhere in Redis; `Inv` follows it through the sessions.

A token, in contrast, counts as armed from the first `INCR` on, and whether its first item can pay
turns out later.  An item that comes in between rides a token for which nobody may ever pay.
-/

namespace RcqServer.Slowmode

open ReadCommitted Prog List Option World

variable {e e' : Ext}

/-! ## Tokens -/

/-- A statement that lets no post ride: whoever has a token still has what became of its first
item, or that item has been paid for. -/
structure Decides (e e' : Ext) : Prop where
  token : ∀ token, (e'.batches token).isSome → (e.batches token).isSome ∧
    (e'.firsts token = e.firsts token ∨ e'.firsts token = some .paid)
  rides : e'.rides = e.rides

/-- What the statement of a label does to the tokens. -/
def Steps : Label → Ext → Ext → Prop
  | .incr token batchSize, e, e' => e' = e.incr token batchSize
  | _, e, e' => Decides e e'

theorem decides_of_eq (hbatches : e'.batches = e.batches) (hfirsts : e'.firsts = e.firsts)
    (hrides : e'.rides = e.rides) : Decides e e' :=
  ⟨fun token h => ⟨hbatches ▸ h, .inl (congrFun hfirsts token)⟩, hrides⟩

theorem decides_expire (e : Ext) (token : BatchKey) : Decides e { e with
      batches := Function.update e.batches token
        (Expiring.expire e.clock batchGrace (e.batches token)) } := by
  refine ⟨fun k hk => ⟨?_, .inl rfl⟩, rfl⟩
  dsimp only at hk
  by_cases h : k = token
  · subst h
    rw [Function.update_self] at hk
    cases hbatch : e.batches k with
    | none => simp [hbatch, Expiring.expire, Expiring.find] at hk
    | some x => rfl
  · rwa [Function.update_of_ne h] at hk

theorem decides_drop (e : Ext) (token : BatchKey) : Decides e { e with
      batches := Function.update e.batches token none
      firsts := Function.update e.firsts token none } := by
  refine ⟨fun k hk => ?_, rfl⟩
  dsimp only at hk
  by_cases h : k = token
  · subst h
    simp at hk
  · rw [Function.update_of_ne h] at hk
    exact ⟨hk, .inl (Function.update_of_ne h _ _)⟩

theorem decides_buy (e : Ext) (path : Path) (slot : Slot) (window : ℕ) (now : RateLimit.Instant)
    (token : Option BatchKey) : Decides e (e.buy path slot window now token) := by
  unfold Ext.buy
  dsimp only
  split
  · refine ⟨fun k hk => ⟨hk, ?_⟩, rfl⟩
    cases token with
    | none => exact .inl rfl
    | some token =>
      by_cases h : k = token
      · exact .inr (h ▸ Function.update_self _ _ _)
      · exact .inl (Function.update_of_ne h _ _)
  · exact decides_of_eq rfl rfl rfl

theorem decides_takePass (e : Ext) (path : Path) (slot : Slot) :
    Decides e (e.takePass path slot) := by
  unfold Ext.takePass
  split
  · exact decides_of_eq rfl rfl rfl
  · exact decides_of_eq rfl rfl rfl

theorem enforceAlone_follows (post : Post) (slot : Slot) (window : ℕ) :
    (enforceAlone post slot window).Follows Steps := by
  refine Follows.bind (fun _ e => ⟨decides_takePass e _ _, trivial⟩) fun free => ?_
  refine Follows.ite trivial ?_
  refine Follows.bind (fun _ e => ⟨decides_buy e _ _ _ _ _, trivial⟩) fun _ => ?_
  refine Follows.ite ?_ trivial
  exact Follows.effect fun _ _ => decides_of_eq rfl rfl rfl

theorem enforceFirst_follows (post : Post) (slot : Slot) (window : ℕ) (token : BatchKey) :
    (enforceFirst post slot window token).Follows Steps := by
  refine Follows.bind (Follows.effect fun _ e => decides_expire e token) fun _ => ?_
  refine Follows.bind (fun _ e => ⟨decides_buy e _ _ _ _ _, trivial⟩) fun _ => ?_
  refine Follows.ite ?_ ?_
  · exact Follows.effect fun _ _ => decides_of_eq rfl rfl rfl
  · exact Follows.bind (Follows.effect fun _ e => decides_drop e token) fun _ => trivial

theorem handler_follows (r : Request) : (handler r).Follows Steps := by
  cases r with
  | tick seconds => exact Follows.effect fun _ _ => decides_of_eq rfl rfl rfl
  | post post =>
    change (enforceGroupSlowmode post).Follows Steps
    unfold enforceGroupSlowmode
    split
    · exact trivial
    · split
      · exact enforceAlone_follows _ _ _
      · refine Follows.bind (fun _ _ => ⟨rfl, trivial⟩) fun n => ?_
        refine Follows.ite (enforceFirst_follows _ _ _ _) ?_
        exact Follows.ite trivial (enforceAlone_follows _ _ _)

/-- What became of the first item of a token is known while the token is there, and it was paid for
whenever a post rode the token. -/
structure Paid (e : Ext) : Prop where
  known : ∀ token, (e.batches token).isSome → (e.firsts token).isSome
  rides : ∀ r ∈ e.rides, r.first = some .paid

/-- The first item of the token is not underway. -/
def Label.FirstDecided (e : Ext) : Label → Prop
  | .incr token _ => e.firsts token ≠ some .undecided
  | _ => True

theorem isSome_of_counter {token : BatchKey} (h : 2 ≤ e.counter token) :
    (e.batches token).isSome := by
  cases hbatch : e.batches token with
  | none => simp [Ext.counter, hbatch] at h
  | some x => rfl

theorem Paid.incr {token : BatchKey} {batchSize : ℕ} (h : Paid e)
    (hdecided : e.firsts token ≠ some .undecided) : Paid (e.incr token batchSize) := by
  constructor
  · intro k hk
    by_cases hkey : k = token
    · subst hkey
      by_cases hone : e.counter k = 1
      · simp [Ext.incr, hone]
      · have htwo : 2 ≤ e.counter k := by
          have : 1 ≤ e.counter k := Nat.le_add_left 1 _
          omega
        simpa [Ext.incr, hone] using h.known k (isSome_of_counter htwo)
    · have hold : (e.batches k).isSome := by simpa [Ext.incr, Function.update_of_ne hkey] using hk
      have hfirst := h.known k hold
      by_cases hone : e.counter token = 1
      · simpa [Ext.incr, hone, Function.update_of_ne hkey] using hfirst
      · simpa [Ext.incr, hone] using hfirst
  · intro r hr
    by_cases hride : 2 ≤ e.counter token ∧ e.counter token ≤ 2 * batchSize
    · simp only [Ext.incr, hride, and_self, if_true, mem_cons] at hr
      rcases hr with rfl | hr
      · -- the token was there, so its first item is known, and it is not underway
        obtain ⟨first, hfirst⟩ :=
          isSome_iff_exists.mp (h.known token (isSome_of_counter hride.1))
        cases first with
        | undecided => exact absurd hfirst hdecided
        | paid => exact hfirst
      · exact h.rides r hr
    · simp only [Ext.incr, hride, if_false] at hr
      exact h.rides r hr

theorem Paid.steps (l : Label) (hdecided : l.FirstDecided e) (hstep : Steps l e e') (h : Paid e) :
    Paid e' := by
  have hdecides : Decides e e' → Paid e' := by
    intro hd
    refine ⟨fun token ht => ?_, hd.rides ▸ h.rides⟩
    obtain ⟨hold, hsame | hpaid⟩ := hd.token token ht
    · rw [hsame]
      exact h.known token hold
    · rw [hpaid]
      rfl
  cases l with
  | incr token batchSize =>
    have heq : e' = e.incr token batchSize := hstep
    exact heq ▸ h.incr hdecided
  | expire | buy | drop | arm | takePass | tick => exact hdecides hstep

/-! ## Purchases and passes -/

variable {own : ℕ → Option Purchase} {n : ℕ}

/-- A purchase is in one place at most: its session is still to arm a pass with it, a pass is armed
with it, or a post has taken that pass. -/
structure Inv (e : Ext) (own : ℕ → Option Purchase) : Prop where
  number_lt : ∀ b ∈ e.bought, b.number < e.bought.length
  bought_nodup : (e.bought.map Purchase.number).Nodup
  freed_nodup : (e.freed.map Free.number).Nodup
  freed : ∀ f ∈ e.freed, ⟨f.number, f.path.other, f.slot⟩ ∈ e.bought
  armed : ∀ path slot x, e.passes (path, slot) = some x →
    ⟨x.value, path.other, slot⟩ ∈ e.bought ∧ x.value ∉ e.freed.map Free.number
  held : ∀ n b, own n = some b → b ∈ e.bought ∧ b.number ∉ e.freed.map Free.number ∧
    ∀ key x, e.passes key = some x → x.value ≠ b.number
  apart : ∀ n m b c, own n = some b → own m = some c → n ≠ m → b.number ≠ c.number

/-- A statement that concerns neither purchases nor passes. -/
def Idle (e e' : Ext) : Prop :=
  e'.passes = e.passes ∧ e'.bought = e.bought ∧ e'.freed = e.freed

theorem Inv.idle (h : Inv e own) (hidle : Idle e e') : Inv e' own := by
  obtain ⟨hpasses, hbought, hfreed⟩ := hidle
  constructor
  · rw [hbought]
    exact h.number_lt
  · rw [hbought]
    exact h.bought_nodup
  · rw [hfreed]
    exact h.freed_nodup
  · rw [hbought, hfreed]
    exact h.freed
  · rw [hpasses, hbought, hfreed]
    exact h.armed
  · rw [hpasses, hbought, hfreed]
    exact h.held
  · exact h.apart

/-- The purchase with a number. -/
theorem Inv.eq_of_number (h : Inv e own) {b c : Purchase} (hb : b ∈ e.bought) (hc : c ∈ e.bought)
    (hnumber : b.number = c.number) : b = c :=
  inj_on_of_nodup_map h.bought_nodup hb hc hnumber

/-- A session that holds nothing buys a slot, and holds the purchase. -/
theorem Inv.bought (h : Inv e own) (path : Path) (slot : Slot)
    (hpasses : e'.passes = e.passes) (hfreed : e'.freed = e.freed)
    (hbought : e'.bought = ⟨e.bought.length, path, slot⟩ :: e.bought) :
    Inv e' (Function.update own n (some ⟨e.bought.length, path, slot⟩)) := by
  have hold : ∀ b ∈ e.bought, b ∈ e'.bought := fun b hb => hbought ▸ mem_cons_of_mem _ hb
  have hfresh : ∀ b ∈ e.bought, b.number ≠ e.bought.length := fun b hb => (h.number_lt b hb).ne
  constructor
  · intro b hb
    rw [hbought] at hb ⊢
    rcases mem_cons.mp hb with rfl | hb
    · exact Nat.lt_succ_self _
    · exact Nat.lt_succ_of_lt (h.number_lt b hb)
  · rw [hbought, map_cons]
    refine nodup_cons.mpr ⟨fun hmem => ?_, h.bought_nodup⟩
    obtain ⟨b, hb, hnumber⟩ := mem_map.mp hmem
    exact hfresh b hb hnumber
  · rw [hfreed]
    exact h.freed_nodup
  · rw [hfreed]
    exact fun f hf => hold _ (h.freed f hf)
  · rw [hpasses, hfreed]
    exact fun path slot x hx => ⟨hold _ (h.armed path slot x hx).1, (h.armed path slot x hx).2⟩
  · intro m b hb
    rw [hpasses, hfreed]
    by_cases hm : m = n
    · -- the new number is that of no purchase before
      subst hm
      rw [Function.update_self, some.injEq] at hb
      subst hb
      refine ⟨hbought ▸ mem_cons_self, fun hmem => ?_, fun key x hx hnumber => ?_⟩
      · obtain ⟨f, hf, hnumber⟩ := mem_map.mp hmem
        exact hfresh _ (h.freed f hf) hnumber
      · exact hfresh _ (h.armed key.1 key.2 x hx).1 hnumber
    · rw [Function.update_of_ne hm] at hb
      exact ⟨hold b (h.held m b hb).1, (h.held m b hb).2⟩
  · intro m k b c hb hc hmk
    have hne : ∀ m b, own m = some b → b.number ≠ e.bought.length :=
      fun m b hb => hfresh b (h.held m b hb).1
    by_cases hm : m = n
    · subst hm
      rw [Function.update_of_ne hmk.symm] at hc
      rw [Function.update_self, some.injEq] at hb
      subst hb
      exact (hne k c hc).symm
    · rw [Function.update_of_ne hm] at hb
      by_cases hk : k = n
      · subst hk
        rw [Function.update_self, some.injEq] at hc
        subst hc
        exact hne m b hb
      · rw [Function.update_of_ne hk] at hc
        exact h.apart m k b c hb hc hmk

/-- A session arms the pass of the other path with its purchase. -/
theorem Inv.arms (h : Inv e own) {b : Purchase} (hown : own n = some b) (expires : Option Time) :
    Inv { e with passes := Function.update e.passes (b.path.other, b.slot) (some ⟨b.number, expires⟩) }
      (Function.update own n none) := by
  obtain ⟨hb, hfree, -⟩ := h.held n b hown
  refine ⟨h.number_lt, h.bought_nodup, h.freed_nodup, h.freed, ?_, ?_, ?_⟩
  · intro path slot x hx
    by_cases hkey : (path, slot) = (b.path.other, b.slot)
    · dsimp only at hx
      rw [hkey, Function.update_self, some.injEq] at hx
      subst hx
      obtain ⟨rfl, rfl⟩ := Prod.mk.inj hkey
      have hother : b.path.other.other = b.path := by cases b.path <;> rfl
      rw [hother]
      exact ⟨hb, hfree⟩
    · dsimp only at hx
      rw [Function.update_of_ne hkey] at hx
      exact h.armed path slot x hx
  · intro m c hc
    have hm : m ≠ n := by
      rintro rfl
      simp at hc
    rw [Function.update_of_ne hm] at hc
    obtain ⟨hmem, hcfree, hpass⟩ := h.held m c hc
    refine ⟨hmem, hcfree, fun key x hx => ?_⟩
    by_cases hkey : key = (b.path.other, b.slot)
    · dsimp only at hx
      rw [hkey, Function.update_self, some.injEq] at hx
      subst hx
      exact h.apart n m b c hown hc hm.symm
    · dsimp only at hx
      rw [Function.update_of_ne hkey] at hx
      exact hpass key x hx
  · intro m k c d hc hd hmk
    have hm : m ≠ n := by
      rintro rfl
      simp at hc
    have hk : k ≠ n := by
      rintro rfl
      simp at hd
    rw [Function.update_of_ne hm] at hc
    rw [Function.update_of_ne hk] at hd
    exact h.apart m k c d hc hd hmk

theorem Inv.takePass (h : Inv e own) (path : Path) (slot : Slot) : Inv (e.takePass path slot) own := by
  unfold Ext.takePass
  split
  case h_2 => exact h
  case h_1 number hread =>
    obtain ⟨x, hfind, rfl⟩ := map_eq_some_iff.mp hread
    have hx : e.passes (path, slot) = some x := (filter_eq_some_iff.mp hfind).1
    obtain ⟨hbought, hfresh⟩ := h.armed path slot x hx
    have hother : ∀ key y, Function.update e.passes (path, slot) none key = some y →
        e.passes key = some y ∧ key ≠ (path, slot) := by
      intro key y hy
      by_cases hkey : key = (path, slot)
      · rw [hkey, Function.update_self] at hy
        cases hy
      · rw [Function.update_of_ne hkey] at hy
        exact ⟨hy, hkey⟩
    refine ⟨h.number_lt, h.bought_nodup, nodup_cons.mpr ⟨hfresh, h.freed_nodup⟩,
      forall_mem_cons.mpr ⟨hbought, h.freed⟩, ?_, ?_, h.apart⟩
    · intro p s y hy
      obtain ⟨hy, hkey⟩ := hother (p, s) y hy
      obtain ⟨hmem, hnot⟩ := h.armed p s y hy
      refine ⟨hmem, fun hin => ?_⟩
      rcases mem_cons.mp hin with heq | hin
      · -- two passes of one purchase are one pass
        obtain ⟨-, hpath, hslot⟩ := Purchase.mk.inj (h.eq_of_number hmem hbought heq)
        refine hkey (Prod.ext ?_ hslot)
        cases p <;> cases path <;> first | rfl | cases hpath
      · exact hnot hin
    · intro m b hb
      obtain ⟨hmem, hnot, hpass⟩ := h.held m b hb
      refine ⟨hmem, fun hin => ?_, fun key y hy => hpass key y (hother key y hy).1⟩
      rcases mem_cons.mp hin with heq | hin
      · exact hpass (path, slot) x hx heq.symm
      · exact hnot hin

/-- What each session is still to arm a pass with. -/
def custody : Custody Unit Ext Label Request Purchase where
  Inv s own := Inv s.ext own
  Of _ _ := True
  Later _ _ := True
  Cond _ _ _ := True

theorem coherent : custody.Coherent := ⟨fun _ => trivial, fun _ _ _ _ _ => trivial⟩

theorem framed : custody.Framed (fun _ : Empty => True) Idle where
  stmt _ _ _ hinv hidle := ⟨hinv.idle hidle, trivial⟩
  commit _ _ _ _ _ hinv hidle := ⟨hinv.idle hidle, trivial⟩

section Handlers

variable {α : Type} {r : Request} {s : Shared Unit Ext} {ws : List Empty}

theorem wp_idle {p : Handler α} (hp : p.Within (fun _ => True) Idle) :
    custody.wp r p (fun _ o _ _ => o = none) none ws s :=
  Custody.wp_mono (Custody.wp_within coherent framed hp (.inl rfl) (by simp) fun _ _ => trivial)
    fun _ _ _ _ h => h.1

theorem buy_idle (e : Ext) (path : Path) (slot : Slot) (window : ℕ) (now : RateLimit.Instant)
    (token : Option BatchKey) (h : (e.verdict slot window now).accepted = false) :
    Idle e (e.buy path slot window now token) := by
  rw [Ext.buy, h]
  exact ⟨rfl, rfl, rfl⟩

theorem buy_accepted (e : Ext) (path : Path) (slot : Slot) (window : ℕ) (now : RateLimit.Instant)
    (token : Option BatchKey) (h : (e.verdict slot window now).accepted = true) :
    (e.buy path slot window now token).passes = e.passes ∧
      (e.buy path slot window now token).freed = e.freed ∧
      (e.buy path slot window now token).bought = ⟨e.bought.length, path, slot⟩ :: e.bought := by
  rw [Ext.buy, h]
  exact ⟨rfl, rfl, rfl⟩

/-- A purchase is held by its session. -/
theorem wp_buy (path : Path) (slot : Slot) (window : ℕ) (now : RateLimit.Instant)
    (token : Option BatchKey) : custody.wp r (buy path slot window now token)
      (fun out o _ _ => o = if out.1.accepted then some ⟨out.2, path, slot⟩ else none) none ws s := by
  intro s' own n _ hinv hown _
  cases hv : (s'.ext.verdict slot window now).accepted with
  | false =>
    have hinv' := hinv.idle (buy_idle s'.ext path slot window now token hv)
    exact ⟨none, ⟨Custody.keep hinv' hown, trivial, by simp⟩, by simp [Custody.wp, hv]⟩
  | true =>
    refine ⟨some ⟨s'.ext.bought.length, path, slot⟩, ⟨?_, trivial, fun _ _ => trivial⟩,
      by simp [Custody.wp, hv]⟩
    obtain ⟨hpasses, hfreed, hbought⟩ := buy_accepted s'.ext path slot window now token hv
    exact hinv.bought path slot hpasses hfreed hbought

theorem wp_arm (path : Path) (slot : Slot) (number : ℕ) :
    custody.wp r (arm path.other slot number) (fun _ o _ _ => o = none)
      (some ⟨number, path, slot⟩) ws s := by
  intro s' own n _ hinv hown _
  exact ⟨none, ⟨hinv.arms hown _, trivial, by simp⟩, rfl⟩

theorem enforceAlone_safe (post : Post) (slot : Slot) (window : ℕ) :
    custody.wp r (enforceAlone post slot window) (fun _ o _ _ => o = none) none ws s := by
  have htake : custody.wp r (takePass post.path slot) (fun _ o _ _ => o = none) none ws s := by
    intro s' own n _ hinv hown _
    exact ⟨none, ⟨Custody.keep (hinv.takePass post.path slot) hown, trivial, by simp⟩, rfl⟩
  refine Custody.wp_seq htake ?_
  rintro free o ws s rfl
  split
  · exact rfl
  · refine Custody.wp_seq (wp_buy _ _ _ _ _) ?_
    rintro ⟨v, number⟩ o ws s ho
    dsimp only at ho ⊢
    split
    · rename_i hv
      rw [ho, if_pos hv]
      exact wp_arm _ _ _
    · rename_i hv
      rw [ho, if_neg hv]
      exact rfl

theorem enforceFirst_safe (post : Post) (slot : Slot) (window : ℕ) (token : BatchKey) :
    custody.wp r (enforceFirst post slot window token) (fun _ o _ _ => o = none) none ws s := by
  refine Custody.wp_seq (wp_idle (Within.effect fun _ _ => ⟨rfl, rfl, rfl⟩)) ?_
  rintro - o ws s rfl
  refine Custody.wp_seq (wp_buy _ _ _ _ _) ?_
  rintro ⟨v, number⟩ o ws s ho
  dsimp only at ho ⊢
  split
  · rename_i hv
    rw [ho, if_pos hv]
    exact wp_arm _ _ _
  · rename_i hv
    rw [ho, if_neg hv]
    exact wp_idle (Within.bind (Within.effect fun _ _ => ⟨rfl, rfl, rfl⟩) fun _ => trivial)

theorem handler_safe (r : Request) (s : Shared Unit Ext) :
    custody.wp r (handler r) (fun _ o _ _ => o = none) none [] s := by
  cases r with
  | tick seconds => exact wp_idle (Within.effect fun _ _ => ⟨rfl, rfl, rfl⟩)
  | post post =>
    change custody.wp _ (enforceGroupSlowmode post) _ _ _ _
    unfold enforceGroupSlowmode
    split
    · exact rfl
    · split
      · exact enforceAlone_safe _ _ _
      · have hincr : ∀ token : BatchKey, (incr token post.batchSize).Within (fun _ => True) Idle :=
          fun _ _ _ => ⟨by simp, ⟨rfl, rfl, rfl⟩, trivial⟩
        refine Custody.wp_seq (wp_idle (hincr _)) ?_
        rintro k o ws s rfl
        split
        · exact enforceFirst_safe _ _ _ _
        · split
          · exact rfl
          · exact enforceAlone_safe _ _ _

end Handlers

/-! ## Runs -/

/-- The slots of a member that were bought. -/
def Ext.slotsBought (e : Ext) (slot : Slot) : ℕ := (e.bought.filter (·.slot = slot)).length

/-- The posts of a member that were admitted on a path without riding a token: those that bought a
slot and those that took a pass. -/
def Ext.admittedAlone (e : Ext) (path : Path) (slot : Slot) : ℕ :=
  (e.bought.filter fun b => b.path = path ∧ b.slot = slot).length +
    (e.freed.filter fun f => f.path = path ∧ f.slot = slot).length

theorem Inv.admittedAlone_le (h : Inv e own) (path : Path) (slot : Slot) :
    e.admittedAlone path slot ≤ e.slotsBought slot := by
  let on (path : Path) := e.bought.filter fun b => b.path = path ∧ b.slot = slot
  let taken := e.freed.filter fun f => f.path = path ∧ f.slot = slot
  have hsub : taken.map Free.number ⊆ (on path.other).map Purchase.number := by
    intro k hk
    obtain ⟨f, hf, rfl⟩ := mem_map.mp hk
    obtain ⟨hfree, hmatch⟩ := mem_filter.mp hf
    obtain ⟨hpath, hslot⟩ := of_decide_eq_true hmatch
    have hbuyer := h.freed f hfree
    rw [hpath, hslot] at hbuyer
    exact mem_map.mpr ⟨_, mem_filter.mpr ⟨hbuyer, decide_eq_true ⟨rfl, rfl⟩⟩, rfl⟩
  have hnodup : (taken.map Free.number).Nodup :=
    h.freed_nodup.sublist (filter_sublist.map _)
  have htaken : taken.length ≤ (on path.other).length := by
    simpa using (subperm_of_subset hnodup hsub).length_le
  -- the purchases of a member are those on the one path and those on the other
  have hsplit : ∀ bs : List Purchase,
      (bs.filter fun b => b.path = path ∧ b.slot = slot).length +
        (bs.filter fun b => b.path = path.other ∧ b.slot = slot).length =
      (bs.filter (·.slot = slot)).length := by
    intro bs
    induction bs with
    | nil => rfl
    | cons b bs ih =>
      have hpath : b.path = path ∧ b.path ≠ path.other ∨ b.path ≠ path ∧ b.path = path.other := by
        cases b.path <;> cases path <;> decide
      by_cases hslot : b.slot = slot
      · rcases hpath with ⟨h₁, h₂⟩ | ⟨h₁, h₂⟩
        · simp only [filter_cons, h₁, hslot, h₁ ▸ h₂] at ih ⊢
          simp at ih ⊢
          omega
        · simp only [filter_cons, hslot, h₂] at ih ⊢
          simp [h₂ ▸ h₁] at ih ⊢
          omega
      · simpa [filter_cons, hslot] using ih
  calc e.admittedAlone path slot ≤ (on path).length + (on path.other).length :=
        Nat.add_le_add_left htaken _
    _ = e.slotsBought slot := hsplit e.bought

/-- No item of an album comes in while the first one is underway. -/
def FirstsDecided (w : World) : Action Request → Prop
  | .step n => ∀ x ∈ w.upcoming n, x.2.FirstDecided w.shared.ext
  | _ => True

/-- **Who pays.**  In every run of posts, however their commands interleave, in which no item of an
album comes in while the first item of its token is underway, the first item of every token that a
post rode had bought a slot.  In every run whatsoever, the posts that were admitted on a path and
rode no token are not more than the slots that were bought. -/
theorem posts_are_paid_for {clock : Time} {buckets : Slot → Option RateLimit.Bucket} {w : World} :
    (Run handler FirstsDecided (.fresh () (.initial clock buckets)) w →
      ∀ r ∈ w.shared.ext.rides, r.first = some .paid) ∧
    (Run handler (fun _ _ => True) (.fresh () (.initial clock buckets)) w →
      ∀ path slot, w.shared.ext.admittedAlone path slot ≤ w.shared.ext.slotsBought slot) := by
  constructor
  · intro hrun
    have hinit : Paid (.initial clock buckets) :=
      ⟨fun _ h => absurd h Bool.false_ne_true, nofun⟩
    have hpaid : Paid w.shared.ext :=
      ext_inv_of_run (C := fun l e => l.FirstDecided e) handler_follows
        (fun l _ _ hdecided hstep h => h.steps l hdecided hstep) (fun _ _ hok => hok) hinit hrun
    exact hpaid.rides
  · intro hrun path slot
    have hinit : Inv (.initial clock buckets) fun _ => none := by
      constructor <;> simp [Ext.initial]
    obtain ⟨own, hinv, -⟩ := Custody.held_of_run coherent handler_safe
      (fun _ _ _ _ _ => trivial) (C := custody) hinit hrun
    exact Inv.admittedAlone_le hinv path slot

section Example

instance (e : Ext) (l : Label) : Decidable (l.FirstDecided e) := by
  rcases l with _ | _ <;> unfold Label.FirstDecided <;> infer_instance

instance : DecidableRel FirstsDecided := by
  rintro w (_ | _) <;> unfold FirstsDecided <;> infer_instance

/-- A post of member 7 into a room with a slowmode of a minute. -/
def memberPost (path : Path) (batch : Option String) (now : RateLimit.Instant) : Request :=
  .post ⟨some ⟨1, 2, some 60⟩, some 7, "message", some ("member", none), path, batch, 2, now⟩

/-- A post on both paths, and a minute later an album of two items. -/
def postThenAlbum : World :=
  (fresh () (.initial 100 fun _ => none)).play handler
    (.start (memberPost .broadcast none 100) :: steps 0 4 ++
      .start (memberPost .sealed none 100) :: steps 1 2 ++ .start (Request.tick 60) :: steps 2 2 ++
      .start (memberPost .sealed (some "a1b2c3d4") 160) :: steps 3 5 ++
      .start (memberPost .sealed (some "a1b2c3d4") 161) :: steps 4 2)

theorem posts_are_paid_for_album :
    postThenAlbum.answer? 4 = some () ∧ postThenAlbum.shared.ext.rides.length = 1 ∧
      (∀ r ∈ postThenAlbum.shared.ext.rides, r.first = some .paid) ∧
      postThenAlbum.shared.ext.admittedAlone .sealed (1, 7) = 2 ∧
      postThenAlbum.shared.ext.admittedAlone .sealed (1, 7) ≤
        postThenAlbum.shared.ext.slotsBought (1, 7) :=
  ⟨by decide +kernel, by decide +kernel, posts_are_paid_for.1 (.of_play _ (by decide +kernel)),
    by decide +kernel, posts_are_paid_for.2 (.of_play _ (by decide +kernel)) .sealed (1, 7)⟩

/-- The member has posted a second ago.  The two items of an album come in at once: the second one
rides the token that the first one has counted, and the first one is refused. -/
theorem item_rides_unpaid_token :
    let w := (fresh () (.initial 101 fun _ => some ⟨.add .empty 100 100, 165⟩) : World).play
      handler ([.start (memberPost .sealed (some "a1b2c3d4") 101),
        .start (memberPost .sealed (some "a1b2c3d4") 101), .step 0] ++ steps 1 2 ++ steps 0 4)
    Run handler (fun _ _ => True)
        (.fresh () (.initial 101 fun _ => some ⟨.add .empty 100 100, 165⟩)) w ∧
      (w.upcoming 0).isNone ∧ w.answer? 0 = none ∧ w.answer? 1 = some () ∧
      w.shared.ext.bought = [] ∧ ∃ r ∈ w.shared.ext.rides, r.first ≠ some .paid :=
  ⟨.of_play _ (by decide +kernel), by decide +kernel⟩

end Example

end RcqServer.Slowmode
