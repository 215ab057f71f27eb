import RcqServer.Sessions.Epochs

/-!
# Every bump counts

`bump_uin_epoch` reads the row, computes the next epoch and writes it, without a lock in between.  A
bump that has read the row before another one commits writes the epoch that is there already: two
events share one epoch, and a token that was issued between them stays good.  If no bump of a number
commits while the `UPDATE` of another one is due, every committed bump raises the epoch.
-/

namespace RcqServer.Sessions

open ReadCommitted Outline World

/-- No bump of a number commits while the `UPDATE` of another bump of it is due. -/
def FlushesWait (w : World) : Action Request → Prop
  | .step k => ∀ x ∈ w.upcoming k, ∀ u ∈ x.2.bumped, ∀ j < w.sessions.length, j ≠ k →
      ∀ y ∈ w.upcoming j, y.2.flushes u = false
  | _ => True

instance : DecidableRel FlushesWait := by
  rintro w (_ | _) <;> unfold FlushesWait <;> infer_instance

/-- The action commits a bump of the number. -/
def CommitsBump (u : Uin) (w : World) : Action Request → Bool
  | .step k => w.committing k && (w.upcoming k).any fun x => x.2.bumped == some u
  | _ => false

variable {cfg : Config} {verify : Verify} {db : Db} {now : Time} {w w' : World} {u : Uin}

private theorem allows_of_flushesWait {a : Action Request} (h : FlushesWait w a) :
    (Epochs.outline False).Allows w a := by
  cases a with
  | start r => exact trivial
  | kill k => exact trivial
  | step k =>
    intro r p ws hk
    refine ⟨fun _ _ => trivial, fun _ l hl j r' p' ws' hj hother u hu x hx huses => ?_⟩
    have hfree := h _ (upcoming_of_running hk hl) u hu j
      (List.getElem?_eq_some_iff.mp hother).1 hj _ (upcoming_of_running hother hx)
    rcases huses with hflushes | ⟨hfalse, -⟩
    · exact Bool.false_ne_true (hfree.symm.trans hflushes)
    · exact hfalse

/-- One action. -/
theorem epochOf_next {a : Action Request}
    (hrun : Run (handler cfg verify) FlushesWait (.fresh db (.initial now)) w)
    (ha : FlushesWait w a) (hnext : w.next (handler cfg verify) a = some w') :
    w.shared.db.epochOf u + (CommitsBump u w a).toNat ≤ w'.shared.db.epochOf u := by
  cases a with
  | start r =>
    obtain rfl := Option.some.inj hnext
    exact le_rfl
  | kill k =>
    obtain ⟨r, p, ws, -, rfl⟩ := next_kill_cases hnext
    exact le_rfl
  | step k =>
    have hstep := step_of_run Epochs.coherent (fun r s _ _ => Epochs.handler_safe cfg verify r s)
      (Epochs.inv_initial False db now) (hrun.mono fun _ _ => allows_of_flushesWait)
      (allows_of_flushesWait ha) hnext
    cases hbump : CommitsBump u w (.step k) with
    | false =>
      rcases hstep with hsame | ⟨r, l, ws, -, -, hstep⟩
      · rw [hsame]
        exact le_rfl
      · exact hstep.guar.mono u
    | true =>
      obtain ⟨hcommit, hlabel⟩ := Bool.and_eq_true_iff.mp hbump
      have hist := hist_ne_of_committing hcommit hnext
      rcases hstep with hsame | ⟨r, l, ws, hup, -, hstep⟩
      · rw [hsame] at hist
        exact absurd rfl hist
      · rw [hup] at hlabel
        exact hstep.guar.above hist u (beq_iff_eq.mp hlabel)

/-- **Every bump counts.**  From every state that a run reaches, a schedule that commits `n` bumps of
a number leaves its epoch at least `n` above, and if there is one, above every token of the number
that was issued before; in both, no bump commits while the `UPDATE` of another one is due. -/
theorem bumps_raise_epoch (cfg : Config) (verify : Verify) (u : Uin) {db : Db} {now : Time}
    {w : World} (hrun : Run (handler cfg verify) FlushesWait (.fresh db (.initial now)) w)
    (schedule : List (Action Request)) (hok : w.Obeys (handler cfg verify) FlushesWait schedule) :
    let bumps := w.tally (handler cfg verify) (CommitsBump u) schedule
    let w' := w.play (handler cfg verify) schedule
    w.shared.db.epochOf u + bumps ≤ w'.shared.db.epochOf u ∧
      (0 < bumps → ∀ i ∈ w.shared.ext.issued, i.token.uin = u →
        i.token.epoch < w'.shared.db.epochOf u) := by
  have hcount : w.shared.db.epochOf u + w.tally (handler cfg verify) (CommitsBump u) schedule ≤
      (w.play (handler cfg verify) schedule).shared.db.epochOf u :=
    tally_le (fun _ _ _ hrun ha hnext => epochOf_next hrun ha hnext) hrun schedule hok
  refine ⟨hcount, ?_⟩
  rintro hpos i hi rfl
  have hinv := inv_of_run Epochs.coherent (fun r s _ _ => Epochs.handler_safe cfg verify r s)
    (Epochs.inv_initial False db now) (hrun.mono fun _ _ => allows_of_flushesWait)
  exact (hinv.issued i hi).trans_lt (Nat.lt_of_lt_of_le (Nat.lt_add_of_pos_right hpos) hcount)

/-- The number 1 has been bumped four times. -/
abbrev bumpedBefore : World :=
  .fresh { emptyDb with uinEpochs := (∅ : Table Uin ℕ).set 1 (some 4) } (.initial 1000)

/-- The number is released twice, and its owner logs in between; `ahead` steps of the second release
come before the first one. -/
def twoReleases (ahead : ℕ) : List (Action Request) :=
  .start (Request.burn 1) :: steps 0 ahead ++ .start (Request.burn 1) :: steps 1 5 ++
    .start (Request.login 1 (some 9)) :: steps 2 10 ++ steps 0 5 ++
    .start (Request.check (issueToken 1000 1 5 (some 9))) :: steps 3 10

theorem bumps_raise_epoch_in_turn :
    let w := bumpedBefore.play (handler defaults noProofs) (twoReleases 0)
    bumpedBefore.tally (handler defaults noProofs) (CommitsBump 1) (twoReleases 0) = 2 ∧
      6 ≤ w.shared.db.epochOf 1 ∧ w.answer? 3 = none := by
  have hcount : bumpedBefore.tally (handler defaults noProofs) (CommitsBump 1) (twoReleases 0) = 2 :=
    by decide +kernel
  have hraised := (bumps_raise_epoch defaults noProofs 1 .refl (twoReleases 0)
    (by decide +kernel : bumpedBefore.Obeys (handler defaults noProofs) FlushesWait _)).1
  refine ⟨hcount, ?_, by decide +kernel⟩
  rw [hcount] at hraised
  exact hraised

/-- Both releases have read the epoch 4: each commits the epoch 5, and the token that was issued
under it between the two is accepted after both. -/
theorem two_bumps_one_epoch :
    let w := bumpedBefore.play (handler defaults noProofs) (twoReleases 1)
    Run (handler defaults noProofs) (fun _ _ => True) bumpedBefore w ∧
      bumpedBefore.tally (handler defaults noProofs) (CommitsBump 1) (twoReleases 1) = 2 ∧
      bumpedBefore.shared.db.epochOf 1 = 4 ∧ w.shared.db.epochOf 1 = 5 ∧
      w.shared.ext.bumps = [⟨1, 5⟩, ⟨1, 5⟩] ∧
      w.answer? 2 = some (.token (issueToken 1000 1 5 (some 9))) ∧ w.answer? 3 = some (.account 1) :=
  ⟨.of_play _ (by decide +kernel), by decide +kernel⟩

end RcqServer.Sessions
