import RcqServer.ReadCommitted.Transaction
import RcqServer.Sessions.Parts

/-!
# Two accounts, one key

A rotation looks for other accounts that have the new key, and goes on if there are none.  It looks
for the two usual spellings of the key; a key that is stored in another one is not found.  And it
looks once: another rotation onto the same key may commit before this one does.
-/

namespace RcqServer.Sessions

open ReadCommitted Prog Outline List Option

/-- The signing key of an account, as bytes. -/
def Db.keyOf (db : Db) (uin : Uin) : Option KeyBytes :=
  (db.users.get uin).bind fun row => decodeKey32 row.signingKey

/-- No other account has the key. -/
def Db.KeyFree (db : Db) (uin : Uin) (key : KeyBytes) : Prop := ∀ v, v ≠ uin → db.keyOf v ≠ some key

/-- Every signing key is stored in a usual spelling. -/
def Db.usualSpellings (db : Db) : Bool := db.users.rows.all fun r => usualSpelling r.2.signingKey

/-- The rotation that the statement belongs to: after the look for other holders of the key, up to
the commit. -/
def Label.rotatesOnto : Label → Option (Uin × KeyBytes)
  | .rotate _ _ (.release _) => none
  | .rotate uin key _ => some (uin, key)
  | .bump (some key) uin .read => some (uin, key)
  | .bump (some key) uin .flush => some (uin, key)
  | _ => none

/-- The rotation that the statement commits. -/
def Label.commitsRotation : Label → Option (Uin × KeyBytes)
  | .rotate uin key (.commit _) => some (uin, key)
  | _ => none

/-- The statement is the look for other holders of the key. -/
def Label.looksForKey : Label → Bool
  | .takenBy => true
  | _ => false

/-- Nobody who is not found has the key. -/
theorem keyFree_of_takenBy {db : Db} {u : Uin} {key : KeyBytes} (husual : db.usualSpellings)
    (hnone : db.takenBy key u = []) : db.KeyFree u key := by
  intro v hv hkey
  obtain ⟨row, hrow, hdecode⟩ := bind_eq_some_iff.mp hkey
  have hspelled : usualSpelling row.signingKey :=
    all_eq_true.mp husual (v, row) (Table.mem_rows.mpr hrow)
  rw [usualSpelling, hdecode, all_some] at hspelled
  have hmem : v ∈ db.takenBy key u := by
    refine mem_map.mpr ⟨(v, row), Table.mem_select.mpr ⟨hrow, ?_⟩, rfl⟩
    rw [Bool.and_eq_true]
    exact ⟨bne_iff_ne.mpr hv, hspelled⟩
  rw [hnone] at hmem
  cases hmem

namespace Collisions

variable {r : Request} {l : Label} {ws : List Write} {s s' : State} {u : Uin} {key : KeyBytes}
  {α β : Type}

/-! ## The outline -/

structure Guar (l : Label) (s s' : State) : Prop where
  quiet : s'.hist = s.hist → s'.db = s.db
  /-- Only the account that is rotated gets a key. -/
  keys : ∀ v, s'.db.keyOf v = s.db.keyOf v ∨
    ∃ key, l.commitsRotation = some (v, key) ∧ s'.db.keyOf v = some key
  /-- A rotation that found nobody leaves nobody else with its key. -/
  rotation : ∀ ro, s'.ext.rotations = ro :: s.ext.rotations → ro.cascade = false →
    l.commitsRotation = some (ro.uin, ro.key) ∧ s'.db.KeyFree ro.uin ro.key

def outline : Outline Db Ext Write Label Request where
  Inv _ := True
  Rely _ l _ s s' := ∀ x ∈ l, ∀ y ∈ x.rotatesOnto, s.db.KeyFree y.1 y.2 → s'.db.KeyFree y.1 y.2
  Guar _ l _ := Guar l
  Start _ _ := True
  Cond _ l s := l.looksForKey → s.db.usualSpellings
  Apart l _ l' _ := ∀ x ∈ l.commitsRotation, ∀ z ∈ l', ∀ y ∈ z.rotatesOnto, y.1 ≠ x.1 → y.2 ≠ x.2

theorem coherent : outline.Coherent where
  rely_refl _ _ _ _ _ _ _ _ h := h
  rely_trans _ _ _ _ _ _ h h' x hx y hy hfree := h' x hx y hy (h x hx y hy hfree)
  guar_refl _ _ _ _ :=
    ⟨fun _ => rfl, fun _ => .inl rfl, fun _ h => absurd h (cons_ne_self _ _).symm⟩
  rely_of_guar := by
    intro r l ws r' l' ws' s s' _ hstep _ hapart x hx y hy hfree
    have hguar : Guar l s s' := hstep.guar
    rcases hapart with hsame | hapart
    · rw [hguar.quiet hsame]
      exact hfree
    intro v hv hkey
    rcases hguar.keys v with hkept | ⟨key, hcommits, hnew⟩
    · exact hfree v hv (hkept ▸ hkey)
    · have hne : y.2 ≠ key := hapart (v, key) hcommits x hx y hy (Ne.symm hv)
      exact hne (some.inj (hkey.symm.trans hnew))

/-! ## Steps that do not rotate -/

/-- No account is among the pending writes. -/
def NoUser (o : Write) : Prop := ∀ u row, o ≠ Write.user u row

/-- No rotation is put on record. -/
def Same (e e' : Ext) : Prop := e'.rotations = e.rotations

theorem same_refl (e : Ext) : Same e e := rfl

theorem guar_tell {e : Ext} (he : Same s.ext e) : Guar l s (s.tell e) where
  quiet _ := rfl
  keys _ := .inl rfl
  rotation _ h := absurd (he.symm.trans h) (cons_ne_self _ _).symm

theorem keyOf_commit_of_noUser (hws : ∀ o ∈ ws, NoUser o) (e : Ext) (v : Uin) :
    (s.commit ws e).db.keyOf v = s.db.keyOf v := by
  rw [Db.keyOf, Shared.commit_db, Shared.view, sets_users.get_applyAll_of_notMem, Db.keyOf]
  exact fun row hmem => hws _ hmem v row rfl

theorem framed : outline.Framed r NoUser Same fun ws _ => ∀ o ∈ ws, NoUser o where
  stable _ _ _ _ h _ _ := h
  stmt _ _ _ new e h _ hnew he :=
    ⟨⟨trivial, guar_tell he⟩, fun o ho => (mem_append.mp ho).elim (h o) (hnew o)⟩
  commit l ws s e h _ he := by
    refine ⟨⟨trivial, fun hsame => absurd hsame (cons_ne_self _ _), fun v => .inl ?_, ?_⟩,
      nofun⟩
    · exact keyOf_commit_of_noUser h e v
    · exact fun ro hro => absurd (Eq.trans (Eq.symm he) hro) (cons_ne_self _ _).symm
  rollback _ _ _ := nofun

theorem wp_quiet {p : Handler α} {f : α → Handler β} {R : β → List Write → State → Prop}
    (hp : p.Within NoUser Same) (h : ∀ o ∈ ws, NoUser o)
    (hf : ∀ a ws s, (∀ o ∈ ws, NoUser o) → outline.wp r (f a) R ws s) :
    outline.wp r (p.bind f) R ws s :=
  wp_within_bind framed hp h hf

theorem wp_quiet_last {p : Handler α} (hp : p.Within NoUser Same) (h : ∀ o ∈ ws, NoUser o) :
    outline.Safe r p ws s :=
  safe_within framed hp h

theorem common : Common fun {α} (p : Handler α) => p.Within NoUser Same where
  ret _ := trivial
  raise _ := trivial
  bind hp hf := hp.bind hf
  read _ _ := Within.read same_refl
  aside _ _ _ hx hk db e := ⟨nofun, (hx db e).rotations, hk db e⟩
  retireSlot _ _ := Within.write same_refl fun _ _ o ho u row => by
    obtain rfl := mem_singleton.mp ho
    nofun
  commitSlot := ⟨same_refl, trivial⟩
  loadEpochs := loadEpochs_within same_refl fun e _ _ => same_refl e
  epochCheck token := by
    refine fun _ e => ⟨nofun, ?_, trivial⟩
    dsimp only
    split
    · exact same_refl e
    · exact same_refl e
  mint _ _ _ _ _ := (Within.read same_refl).bind fun _ _ e =>
    ⟨nofun, same_refl e, trivial⟩

/-! ## Rotations -/

variable {token : Token} {env : ReissueEnv} {change : Change} {taken : List Uin}
  {claim : Option Claim} {verify : Verify}

/-- The pending writes give the rotated account its new key, and no account besides. -/
def Keyed (change : Change) (o : Write) : Prop :=
  ∀ v row, o = Write.user v row →
    v = change.uin ∧ row.bind (fun a => decodeKey32 a.signingKey) = some change.newSigning

/-- A rotation that has found nobody, on its way to the commit. -/
structure Rotating (change : Change) (taken : List Uin) (ws : List Write) (s : State) : Prop where
  free : taken = [] → s.db.KeyFree change.uin change.newSigning
  writes : ∀ o ∈ ws, Keyed change o

/-- The statement belongs to the rotation. -/
def Rotates (change : Change) (l : Label) : Prop :=
  l.rotatesOnto = some (change.uin, change.newSigning)

theorem carried : outline.Carried r (Rotates change) (Keyed change) (Rotating change taken) where
  stable l ws s s' hl h hrely _ := by
    refine ⟨fun hnone => ?_, h.writes⟩
    exact hrely l rfl (change.uin, change.newSigning) hl (h.free hnone)
  write ws s new h _ hnew :=
    ⟨h.free, fun o ho => (mem_append.mp ho).elim (h.writes o) (hnew o)⟩

/-- A part of the rotation before its commit. -/
theorem wp_rotating {p : Handler α} {f : α → Handler β} {R : β → List Write → State → Prop}
    (hp : p.Within (Keyed change) Same) (hopen : p.Open (Rotates change))
    (h : Rotating change taken ws s)
    (hf : ∀ a ws s, Rotating change taken ws s → outline.wp r (f a) R ws s) :
    outline.wp r (p.bind f) R ws s := by
  refine wp_seq (wp_open_effect carried ?_ hp hopen h) hf
  exact fun l ws s e h _ he => ⟨⟨trivial, guar_tell he⟩, h.free, h.writes⟩

theorem Rotating.keyOf_commit (h : Rotating change taken ws s) (e : Ext) (v : Uin) :
    (s.commit ws e).db.keyOf v = s.db.keyOf v ∨
      v = change.uin ∧ (s.commit ws e).db.keyOf v = some change.newSigning := by
  rw [Db.keyOf, Db.keyOf, Shared.commit_db, Shared.view]
  rcases sets_users.get_applyAll ws s.db v with hsame | hmem
  · rw [hsame]
    exact .inl rfl
  · exact .inr (h.writes _ hmem v _ rfl)

/-- The commit of a rotation. -/
theorem Rotating.guar (h : Rotating change taken ws s) {signed : Bool} {epoch : Option ℕ} :
    Guar (.rotate change.uin change.newSigning (.commit signed)) s
      (s.commit ws (s.ext.rotated change taken claim epoch)) where
  quiet hsame := absurd hsame (cons_ne_self _ _)
  keys v := by
    rcases h.keyOf_commit _ v with hsame | ⟨rfl, hnew⟩
    · exact .inl hsame
    · exact .inr ⟨_, rfl, hnew⟩
  rotation ro hro hcascade := by
    obtain rfl := (cons.inj hro).1
    have hnone : taken = [] := not_not.mp (of_decide_eq_false hcascade)
    refine ⟨rfl, fun v hv hkey => ?_⟩
    rcases h.keyOf_commit _ v with hsame | ⟨heq, -⟩
    · exact h.free hnone v hv (hsame ▸ hkey)
    · exact hv heq

theorem refuseTaken_open (old : KeyBytes) : (refuseTaken change taken old).Open (Rotates change) :=
  Open.ite trivial ((Open.read (by rfl) _).bind fun _ => Open.raiseIf)

theorem judgeProof_open {p : Proof} :
    (judgeProof verify env change taken p).Open (Rotates change) := by
  refine Open.raiseIf.bind fun _ => Open.raiseIf.bind fun _ =>
    Open.raiseIf.bind fun _ => (Open.read (by rfl) _).bind fun _ =>
    Open.raiseIf.bind fun _ => Open.raiseIf.bind fun _ => ?_
  refine (refuseTaken_open _).bind fun _ => Open.bind ⟨by rfl, fun _ _ => trivial⟩ fun claim => ?_
  cases claim with
  | none => exact trivial
  | some claim => exact trivial

theorem judge_open {fields : ProofFields} :
    (judge verify env change taken fields).Open (Rotates change) := by
  refine Open.ite ?_ ?_
  · split
    · exact trivial
    · exact judgeProof_open.bind fun _ => trivial
  · exact Open.raiseIf.bind fun _ => Open.raiseIf.bind fun _ => trivial

theorem retireOld_open (signed : Bool) : (retireOld change signed).Open (Rotates change) := by
  unfold retireOld
  split
  · exact trivial
  refine Open.ite trivial ((Open.read (by rfl) _).bind fun row => ?_)
  split
  · exact Open.write (by rfl) _ _
  · exact Open.ite (Open.write (by rfl) _ _) ((Open.read (by rfl) _).bind fun _ =>
      (Open.onlyIf (Open.write (by rfl) _ _)).bind fun _ => trivial)

theorem bumpIfSigned_open (signed : Bool) : (bumpIfSigned change signed).Open (Rotates change) := by
  refine Open.ite (Open.bind ((Open.read (by rfl) _).bind fun row => ?_) fun _ => trivial) trivial
  split
  · exact Open.write (by rfl) _ _
  · exact Open.write (by rfl) _ _

theorem failRotation_safe {Q : α → List Write → State → Prop} :
    outline.wp r (failRotation change claim : Handler α) Q ws s := by
  intro s' _ _
  cases claim with
  | none => exact trivial
  | some claim => exact fun s' _ _ _ => ⟨⟨trivial, guar_tell (same_refl s'.ext)⟩, trivial⟩

theorem noUser_nil : ∀ o ∈ ([] : List Write), NoUser o := nofun

theorem keyed_of_noUser {o : Write} (h : NoUser o) : Keyed change o :=
  fun v row heq => absurd heq (h v row)

/-- The flush of the account gives it the new key. -/
theorem keyed_write (hkey : decodeKey32 change.signingKey = some change.newSigning) (db : Db)
    (e : Ext) : ∀ o ∈ ((db.users.get change.uin).map fun row =>
      Write.user change.uin (some (change.apply e.now row))).toList, Keyed change o := by
  intro o ho v row heq
  obtain ⟨account, -, rfl⟩ := map_eq_some_iff.mp (mem_toList.mp ho)
  obtain ⟨rfl, rfl⟩ := Write.user.inj heq
  exact ⟨rfl, hkey⟩

theorem cacheUinEpoch_quiet {rotation : Option KeyBytes} {epoch : ℕ} :
    (cacheUinEpoch rotation u epoch).Within NoUser Same :=
  Within.effect fun _ e => same_refl e

theorem handOver_quiet {epoch : Option ℕ} : (handOver token change epoch).Within NoUser Same := by
  cases epoch with
  | some epoch =>
    exact cacheUinEpoch_quiet.bind fun _ _ e =>
      ⟨nofun, same_refl e, trivial⟩
  | none =>
    exact common.uinEpoch_mint _ _ change.uin
      (fun epoch now => issueToken now change.uin epoch token.device) fun _ _ => ⟨rfl, rfl⟩

theorem applyChange_safe (hkey : decodeKey32 change.signingKey = some change.newSigning)
    (h : Rotating change taken ws s) :
    outline.Safe r (applyChange token env change taken claim) ws s := by
  have hretired : ∀ key row, Keyed change (.retired key row) := fun _ _ => keyed_of_noUser nofun
  have hepoch : ∀ u row, Keyed change (.epoch u row) := fun _ _ => keyed_of_noUser nofun
  refine wp_rotating (Within.write same_refl (keyed_write hkey)) (Open.write (by rfl) _ _) h
    fun _ ws s h => ?_
  refine wp_rotating (retireOld_within same_refl hretired _ _) (retireOld_open _) h
    fun retired ws s h => ?_
  split
  · exact failRotation_safe
  refine wp_rotating (bumpIfSigned_within same_refl hepoch _ _) (bumpIfSigned_open _) h
    fun epoch ws s h => ?_
  split
  · exact failRotation_safe
  split
  · exact failRotation_safe
  refine wp_commit fun s' hrely hinv _ => ?_
  have hnow : Rotating change taken ws s' :=
    carried.stable (r := r) (.rotate change.uin change.newSigning (.commit claim.isSome)) ws s s'
      rfl h hrely hinv
  exact ⟨⟨trivial, hnow.guar⟩, wp_quiet_last handOver_quiet noUser_nil⟩

theorem reissue_safe {body : ReissueIn} : outline.Safe r (reissue verify token body env) [] s := by
  refine wp_quiet (common.authorizeSession token) noUser_nil fun u ws s h => ?_
  split
  · rename_i newIdentity newSigning _ hkey
    refine wp_quiet (common.read _ _) h fun user ws s h => ?_
    split
    · exact trivial
    rename_i user
    split
    · split
      · exact trivial
      · exact wp_quiet_last (common.uinEpoch_mint _ _ u
          (fun epoch now => issueToken now u epoch token.device) fun _ _ => ⟨rfl, rfl⟩) h
    · let change : Change :=
        ⟨u, user, strip body.identityKey, strip body.signingKey, newIdentity, newSigning⟩
      have htaken : outline.wp r
          (read .takenBy fun db _ => db.takenBy newSigning u : Handler (List Uin))
          (fun taken ws s => Rotating change taken ws s) ws s := by
        refine wp_read coherent fun s' _ _ hcond => ⟨fun hnone => ?_, fun o ho => ?_⟩
        · have husers : (s'.view ws).users = s'.db.users := by
            refine applyAll_eq_of_forall Db.users s'.db fun o ho => sets_users.other o ?_
            exact fun v row heq => h o ho v row heq
          refine keyFree_of_takenBy (hcond rfl) ?_
          rwa [Db.takenBy, ← husers]
        · exact keyed_of_noUser (h o ho)
      refine wp_seq htaken fun taken ws s h => ?_
      refine wp_rotating (judge_within same_refl (fun e _ => same_refl e) _ _ _ _) judge_open h
        fun claim ws s h => ?_
      exact applyChange_safe hkey h
  · exact trivial

theorem burn_quiet (u : Uin) : (burn u).Within NoUser Same := by
  refine (bumpUinEpoch_within same_refl (fun _ _ _ _ => nofun) _ _).bind fun epoch => ?_
  split
  · exact trivial
  · exact ⟨same_refl, cacheUinEpoch_quiet⟩

theorem handler_safe (cfg : Config) (verify : Verify) (r : Request) (s : State) :
    outline.Safe r (handler cfg verify r) [] s := by
  by_cases hr : ∃ token body env, r = .reissue token body env
  · obtain ⟨token, body, env, rfl⟩ := hr
    exact safe_map reissue_safe _
  · refine wp_quiet_last (common.handler cfg verify r
      (fun token body env h => absurd ⟨token, body, env, h⟩ hr) burn_quiet fun seconds => ?_)
      noUser_nil
    exact Within.effect fun _ e => same_refl e

end Collisions

end RcqServer.Sessions
