import RcqServer.Numbers.InOrder

/-!
# One payer at a time

While somebody pays for a number it is held, and whoever asks where to pay for it meanwhile is to be
refused.  `payout_target` looks at the holds for a number of the island's own stock, as one of the
questions of `uin_is_taken`, and not at all for a number that its owner sells.
-/

namespace RcqServer.Numbers

open ReadCommitted Prog Outline Option World Shared

/-- The answer about the number is on its way: the holds are not looked at any more. -/
def Label.answers (n : Uin) : Label → Bool
  | .check .quote m .invite => m == n
  | .quote m => m == n
  | _ => false

/-- The write is a hold on a number that the statement is the answer about. -/
def Label.missesHold (l : Label) : Write → Bool
  | .hold n (some _) => l.answers n
  | _ => false

/-- A question about a number on sale is asked while no other sale holds the number. -/
def AskedUnheld (s : State) : Request → Label → Prop
  | .payoutTarget _ sale env, .check .quote uin .listing =>
    env.resaleEnabled = true → (s.db.uinListings.get uin).isSome →
      s.db.heldByOther uin sale s.ext.now = false
  | _, _ => True

theorem heldByOther_of_le {db db' : Db} {n : Uin} {sale : String} {now now' : Time}
    (hrow : db'.uinHolds.get n = db.uinHolds.get n ∨ db'.uinHolds.get n = none) (hnow : now ≤ now')
    (h : db.heldByOther n sale now = false) : db'.heldByOther n sale now' = false := by
  unfold Db.heldByOther at h ⊢
  rcases hrow with hrow | hrow
  · rw [hrow]
    cases hhold : db.uinHolds.get n with
    | none => rfl
    | some hold =>
      rw [hhold] at h
      simp only [any_some, Bool.and_eq_false_iff, decide_eq_false_iff_not, not_lt] at h ⊢
      exact h.imp_left fun hle => hle.trans hnow
  · rw [hrow]
    rfl

namespace Quotes

variable {n : Uin} {sale : String} {r : Request} {l : Label} {ws : List Write} {s s' : State}

/-! ## The outline -/

/-- No answer went out while another sale held the number. -/
def Inv (s : State) : Prop := ∀ q ∈ s.ext.quotes, q.held = false

structure Guar (ws : List Write) (s s' : State) : Prop where
  now : s.ext.now ≤ s'.ext.now
  quiet : s'.hist = s.hist → s'.db = s.db
  row : ∀ n, (∀ hold, Write.hold n (some hold) ∉ ws) →
    s'.db.uinHolds.get n = s.db.uinHolds.get n ∨ s'.db.uinHolds.get n = none

def outline : Outline Db Ext Write Label Request where
  Inv := Inv
  Rely _ l _ s s' := ∀ n, (∃ x ∈ l, x.answers n) → ∀ sale,
    s.db.heldByOther n sale s.ext.now = false → s'.db.heldByOther n sale s'.ext.now = false
  Guar _ _ := Guar
  Start _ _ := True
  Cond r l s := AskedUnheld s r l
  Apart _ ws l' _ := ∀ x ∈ l', ∀ o ∈ ws, x.missesHold o = false

theorem coherent : outline.Coherent where
  rely_refl _ _ _ _ _ _ _ h := h
  rely_trans _ _ _ _ _ _ h h' n hx sale hheld := h' n hx sale (h n hx sale hheld)
  guar_refl _ _ _ _ := ⟨le_rfl, fun _ => rfl, fun _ _ => .inl rfl⟩
  rely_of_guar := by
    rintro r l ws r' l' ws' s s' - hstep - hapart n ⟨x, hx, hanswers⟩ sale hheld
    have hguar : Guar ws s s' := hstep.guar
    rcases hapart with hsame | hapart
    · exact heldByOther_of_le (.inl (by rw [hguar.quiet hsame])) hguar.now hheld
    · refine heldByOther_of_le (hguar.row n fun hold hmem => ?_) hguar.now hheld
      have hmiss : x.answers n = false := hapart x hx _ hmem
      simp [hmiss] at hanswers

/-- The effect is not an answer. -/
def Silent (e e' : Ext) : Prop := e'.quotes = e.quotes ∧ e.now ≤ e'.now

theorem guar_commit {e : Ext} (he : s.ext.now ≤ e.now) : Guar ws s (s.commit ws e) where
  now := he
  quiet h := absurd h (List.cons_ne_self _ _)
  row n hnone := by
    rcases sets_uinHolds.get_applyAll ws s.db n with hsame | hmem
    · exact .inl hsame
    · right
      cases hrow : (applyAll ws s.db).uinHolds.get n with
      | none => rw [commit_db, view, hrow]
      | some hold =>
        rw [hrow] at hmem
        exact absurd hmem (hnone hold)

@[simp] theorem silent_self (e : Ext) : Silent e e := ⟨rfl, le_rfl⟩

@[simp] theorem silent_hand {e e' : Ext} (n : Uin) (door : Door) :
    Silent e (e'.hand n door) ↔ Silent e e' := Iff.rfl

@[simp] theorem silent_grant {e e' : Ext} (nonce : Nonce) (kind : GrantKind) :
    Silent e (e'.grant nonce kind) ↔ Silent e e' := Iff.rfl

@[simp] theorem silent_grantEntry {e e' : Ext} (voucher : Option Nonce) :
    Silent e (e'.grantEntry voucher) ↔ Silent e e' := by
  cases voucher with
  | none => exact Iff.rfl
  | some nonce => exact Iff.rfl

theorem framed : outline.Framed r (fun _ => True) Silent (fun _ _ => True) where
  stable _ _ _ _ _ _ _ := trivial
  stmt l ws s new e _ hinv _ he := by
    refine ⟨⟨fun q hq => hinv q ?_, ⟨he.2, fun _ => rfl, fun _ _ => .inl rfl⟩⟩, trivial⟩
    rwa [tell_ext, he.1] at hq
  commit l ws s e _ hinv he := by
    refine ⟨⟨fun q hq => hinv q ?_, guar_commit he.2⟩, trivial⟩
    rwa [commit_ext, he.1] at hq
  rollback _ _ _ := trivial

/-! ## Where to pay -/

/-- The answer goes out while no other sale holds the number. -/
theorem wp_answerQuote {out : PayoutTargetOut}
    (h : s.db.heldByOther out.uin sale s.ext.now = false) :
    outline.Safe r (answerQuote out sale) [] s := by
  refine wp_seq (wp_effect (Q := fun _ _ _ => True) fun s' hrely hinv _ => ⟨?_, trivial⟩)
    fun _ _ _ _ => trivial
  have hnow : s'.db.heldByOther out.uin sale s'.ext.now = false :=
    hrely out.uin ⟨_, rfl, by simp [Label.answers]⟩ sale h
  exact ⟨List.forall_mem_cons.mpr ⟨hnow, hinv⟩, ⟨le_rfl, fun _ => rfl, fun _ _ => .inl rfl⟩⟩

/-- `uin_is_taken` says no only if nobody holds the number, and then nobody comes to hold it before
the answer. -/
theorem wp_uinIsTaken : outline.wp r (uinIsTaken .quote n none false)
    (fun taken ws s => ws = [] ∧ (taken = false → s.db.heldByOther n sale s.ext.now = false))
    [] s := by
  refine wp_read_bind coherent fun s₁ _ _ _ => ?_
  split
  · exact ⟨rfl, fun hf => (by cases hf)⟩
  refine wp_read_bind coherent fun s₂ _ _ _ => ?_
  split
  · exact ⟨rfl, fun hf => (by cases hf)⟩
  refine wp_seq (wp_read coherent (Q := fun held ws s => ws = [] ∧
    (held = false → s.db.heldByOther n sale s.ext.now = false)) fun s' _ _ _ => ⟨rfl, ?_⟩) ?_
  · rw [view_nil, Db.heldByOther]
    intro hheld
    cases hrow : s'.db.uinHolds.get n with
    | none => rfl
    | some hold =>
      rw [hrow, any_some] at hheld
      rw [any_some, hheld, Bool.false_and]
  rintro held _ s ⟨rfl, hheld⟩
  cases held with
  | true => exact ⟨rfl, fun hf => (by cases hf)⟩
  | false =>
    refine wp_read coherent fun s' hrely _ _ => ⟨rfl, fun _ => ?_⟩
    exact hrely n ⟨_, rfl, by simp [Label.answers]⟩ sale (hheld rfl)

theorem wp_quoteStock {env : PayoutEnv} : outline.Safe r (quoteStock n env sale) [] s := by
  unfold quoteStock
  split
  · exact trivial
  refine wp_raiseIf_bind fun _ => ?_
  have htaken : outline.wp r (uinIsTaken .quote n none false)
      (fun taken ws s => ws = [] ∧ (taken = false → s.db.heldByOther n sale s.ext.now = false))
      [] s := wp_uinIsTaken
  refine wp_seq htaken ?_
  rintro taken _ s ⟨rfl, hheld⟩
  refine wp_raiseIf_bind fun hfree => wp_raiseIf_bind fun _ => wp_answerQuote (hheld ?_)
  exact Bool.eq_false_iff.mpr hfree

theorem payoutTarget_safe {till : Till} {request : String} {env : PayoutEnv} :
    outline.Safe (.payoutTarget request sale env) (payoutTarget till request sale env) [] s := by
  refine wp_raiseIf_bind fun _ => ?_
  refine wp_read_bind coherent fun s₁ _ _ _ => ?_
  split
  · exact trivial
  rename_i uin _
  refine wp_read_bind coherent fun s₂ _ _ hlisted => ?_
  split
  · rename_i listing heq
    obtain ⟨hsome, hresale⟩ := filter_eq_some_iff.mp heq
    have hthere := isSome_iff_exists.mpr ⟨listing, hsome⟩
    exact wp_raiseIf_bind fun _ => wp_answerQuote (hlisted hresale hthere)
  · exact wp_quoteStock

theorem handler_safe (cfg : Config) (till : Till) (r : Request) (s : State) :
    outline.Safe r (handler cfg till r) [] s := by
  have hframe : ∀ {α : Type} {p : Handler α} (f : α → Answer), p.Whole (fun _ => True) Silent →
      outline.Safe r (p.bind fun a => .ret (f a)) [] s := fun f hp =>
    safe_map (wp_within framed hp.1 trivial) f
  cases r with
  | payoutTarget request sale env => exact safe_map payoutTarget_safe _
  | tick seconds =>
    exact hframe _ ⟨Within.effect fun _ e => ⟨rfl, Nat.le_add_right _ _⟩, fun _ _ => trivial⟩
  | _ => exact hframe _ (by simp)

end Quotes

/-! ## The system -/

/-- Questions about numbers on sale are asked while no other sale holds the number. -/
def AsksUnheld (w : World) : Action Request → Prop
  | .step k => ∀ x ∈ w.upcoming k, AskedUnheld w.shared x.1 x.2
  | _ => True

/-- No hold is committed while the answer about its number is on the way. -/
def HoldsWait (w : World) : Action Request → Prop
  | .step k => w.committing k → ∀ j < w.sessions.length, j ≠ k → ∀ y ∈ w.upcoming j,
      ∀ o ∈ w.pending k, y.2.missesHold o = false
  | _ => True

instance (s : State) (r : Request) (l : Label) : Decidable (AskedUnheld s r l) := by
  unfold AskedUnheld
  split
  · infer_instance
  · exact isTrue trivial

instance : DecidableRel AsksUnheld := by
  rintro w (_ | _) <;> unfold AsksUnheld <;> infer_instance

instance : DecidableRel HoldsWait := by
  rintro w (_ | _) <;> unfold HoldsWait <;> infer_instance

private theorem allows_of_asksUnheld {w : World} {a : Action Request} (hasks : AsksUnheld w a)
    (hwait : HoldsWait w a) : Quotes.outline.Allows w a := by
  cases a with
  | start r => exact trivial
  | kill k => exact trivial
  | step k =>
    intro r p ws hk
    refine ⟨fun l hl => hasks _ (upcoming_of_running hk hl), ?_⟩
    intro hcommit l _ j r' p' ws' hj hother l' hl' o ho
    refine hwait (committing_of_running hk hcommit) j
      (List.getElem?_eq_some_iff.mp hother).1 hj _ (upcoming_of_running hother hl') o ?_
    rwa [pending, hk]

/-- **Nobody is told where to pay for a number that another sale holds**, as long as questions
about numbers on sale are asked while no other sale holds the number and no hold is committed while
an answer about its number is on the way. -/
theorem quoted_unheld (cfg : Config) (till : Till) {db : Db} {now : Time} {w : World}
    (hrun : Run (handler cfg till) (fun w a => AsksUnheld w a ∧ HoldsWait w a)
      (.fresh db (.initial now)) w) : ∀ q ∈ w.shared.ext.quotes, q.held = false := by
  have hinit : Quotes.Inv ⟨db, .initial now, []⟩ := nofun
  have hinv : Quotes.Inv w.shared :=
    inv_of_run Quotes.coherent (fun r s _ _ => Quotes.handler_safe cfg till r s) hinit
      (Run.mono (fun _ _ h => allows_of_asksUnheld h.1 h.2) hrun)
  exact hinv

/-- A till that has signed a request for the number 5000, to hold it for the sale that is named. -/
def payingTill : Till where
  verify _ _ _ := .error "bad_voucher"
  verifyResale _ _ _ := .error "bad_voucher"
  verifyEntry _ _ := .error "bad_voucher"
  verifyHold _ request := .ok (true, 5000, request)
  verifyPayout _ _ := .ok 5000

/-- Resale is open, and a number of the island's own stock costs a dollar. -/
def openShop : PayoutEnv where
  shopEnabled := true
  resaleEnabled := true
  prices _ := some 100
  addresses := [("ton", "operator")]

/-- One sale asks where to pay for 5000 and holds it; another asks. -/
def twoPayers : List (Action Request) :=
  .start (Request.payoutTarget "" "one" openShop) :: steps 0 20 ++
    .start (Request.tillHold "one" true) :: steps 1 20 ++
    .start (Request.payoutTarget "" "two" openShop) :: steps 2 20

/-- The number is of the island's own stock: the other sale is not told. -/
theorem quoted_unheld_stock :
    let w := (fresh emptyDb (.initial 1000)).play (handler defaults payingTill) twoPayers
    w.shared.ext.quotes.length = 1 ∧ ∀ q ∈ w.shared.ext.quotes, q.held = false := by
  intro w
  have hrun : Run (handler defaults payingTill) (fun w a => AsksUnheld w a ∧ HoldsWait w a)
      (.fresh emptyDb (.initial 1000)) w := .of_play _ (by decide +kernel)
  exact ⟨by decide +kernel, quoted_unheld defaults payingTill hrun⟩

/-- The account 8 sells 5000. -/
abbrev listed5000 : World :=
  .fresh { emptyDb with
    users := (∅ : Table Uin UserRow).set 8 (some ⟨zeroKey, zeroKey, false, none, none, 0, some 0⟩)
    ownedUins := (∅ : Table Uin Deed).set 5000 (some ⟨8, .purchase, 0⟩)
    uinListings := (∅ : Table Uin Listing).set 5000
      (some ⟨8, "offer", 5000, [("ton", "seller")], 0⟩) } (.initial 1000)

/-- The number is on sale: the other sale is told where to pay for it, with nothing racing. -/
theorem quoted_while_held : ∃ w : World,
    Run (handler defaults payingTill) HoldsWait listed5000 w ∧
      ∃ q ∈ w.shared.ext.quotes, q.uin = 5000 ∧ q.held = true :=
  ⟨_, .of_play twoPayers (by decide +kernel), by decide +kernel⟩

end RcqServer.Numbers
