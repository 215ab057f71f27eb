import RcqServer.Numbers.Books

/-!
# What the functions of the shop do to the books

One lemma for each function that the handlers share, in a request beside which nobody commits.  The
central one is `wp_moveRows`: the six statements of a move come to `Registry.move`.
-/

namespace RcqServer.Numbers

open ReadCommitted Prog Outline Function Option Table List

variable {ρ : Type} {T : ρ → Db → Db → Prop} {v : ρ} {db : Db} {R : Registry Uin}
  {I : Uin → Option (List ℕ)} {ws : List Write} {s : State} {n a b : Uin} {l : Label}

/-- A number of the scarce stock. -/
abbrev Scarce (n : Uin) : Prop := isReservedUin n = true

/-! ## Asking -/

theorem wp_uinIsTaken (h : Seen db R I ws s) (door : Door) (exceptInvite : Option InviteCode)
    (ignoreHolds : Bool) : (alone T).wp v (uinIsTaken door n exceptInvite ignoreHolds)
      (fun taken ws s => Seen db R I ws s ∧ (taken = false → R.Free n)) ws s := by
  refine wp_ask h fun s' h => ?_
  split
  · exact ⟨h, fun hf => (by cases hf)⟩
  rename_i hused
  rw [← mem_inUse, h.books] at hused
  refine wp_ask h fun s' h => ?_
  split
  · exact ⟨h, fun hf => (by cases hf)⟩
  rename_i howned
  have hfree : R.Free n := ⟨hused, h.books ▸ owner_eq_none.mpr (by simpa using howned)⟩
  refine wp_aside (by simp) h fun held ws s h => ?_
  split
  · exact ⟨h, fun _ => hfree⟩
  · exact wp_read alone_coherent fun s' hrely _ _ =>
      ⟨h.stable (hrely (some_ne_none _)), fun _ => hfree⟩

theorem wp_uinIsTaken_free (n : Uin) (exceptInvite : Option InviteCode) (ignoreHolds : Bool)
    (ws : List Write) (s : State) (h : Seen db R I ws s) :
    (alone T).wp v (uinIsTaken .users n exceptInvite ignoreHolds) (fun taken ws s =>
      Seen db R I ws s ∧ (taken = false → Seen db R I ws s ∧ R.Free n)) ws s :=
  wp_mono (wp_uinIsTaken h _ _ _) fun _ _ _ h => ⟨h.1, fun hfree => ⟨h.1, h.2 hfree⟩⟩

/-- Nobody is allocated a scarce number. -/
theorem wp_allocateUin (h : Seen db R I ws s) (cfg : Config) (draw : ℕ → ℕ) :
    (alone T).wp v (allocateUin cfg draw)
      (fun n ws s => (Seen db R I ws s ∧ R.Free n) ∧ ¬Scarce n) ws s :=
  wp_allocateUin_of wp_uinIsTaken_free cfg draw h

theorem wp_activeUser (h : Seen db R I ws s) : (alone T).wp v (activeUser l a)
      (fun user ws s => Seen db R I ws s ∧ a ∈ R.inUse ∧ I a = user.identity) ws s := by
  refine wp_ask h fun s' h => ?_
  cases hget : (s'.view ws).users.get a with
  | none => exact trivial
  | some row =>
    refine wp_raiseIf_bind fun _ => ⟨h, ?_⟩
    rw [← h.books, ← h.people, mem_inUse, Db.identityAt, hget]
    exact ⟨rfl, rfl⟩

/-- The collection that an account is shown is as long as what it holds. -/
theorem wp_ownedUins (h : Seen db R I ws s) :
    (alone T).wp v (ownedUins l a) (fun held ws s => Seen db R I ws s ∧
      (¬maxOwnedUins ≤ held.length → (R.holdings a).encard < maxOwnedUins)) ws s := by
  refine wp_read alone_coherent fun s' hrely _ _ => ?_
  have h := h.stable (hrely (some_ne_none l))
  rw [length_insertionSort]
  set p : Uin → Deed → Bool := fun uin deed => deed.ownerUin == a && uin != a
  have hset : R.holdings a = (((s'.view ws).ownedUins.select p).map Prod.fst).toFinset := by
    ext m
    rw [← h.books]
    simp only [Registry.holdings, Set.mem_ofPred_eq, owner_eq, List.coe_toFinset, List.mem_map,
      Prod.exists, exists_and_right, exists_eq_right, Table.mem_select, p, Bool.and_eq_true,
      beq_iff_eq, bne_iff_ne, map_eq_some_iff]
    constructor
    · rintro ⟨⟨deed, hget, howner⟩, hne⟩
      exact ⟨deed, hget, howner, hne⟩
    · rintro ⟨deed, hget, howner, hne⟩
      exact ⟨⟨deed, hget, howner⟩, hne⟩
  refine ⟨h, fun hroom => ?_⟩
  rw [hset, Set.encard_coe_eq_coe_finsetCard,
    toFinset_card_of_nodup (select_keys_nodup _ _)]
  exact_mod_cast Nat.lt_of_not_le hroom

/-! ## The move -/

theorem wp_rekeyDeeds (h : Seen db R I ws s) : (alone T).wp v (rekeyDeeds l a b) (fun _ ws s =>
      Seen db { R with owner := fun n => Registry.rekey a b (R.owner n) } I ws s) ws s := by
  refine wp_change h fun s' h => h.put ?_ (by simp)
  rw [← h.books, books_deeds]
  refine Registry.ext rfl (funext fun m => ?_) rfl
  simp only [get_setMany_changes, owner_eq]
  cases (s'.view ws).ownedUins.get m with
  | none => rfl
  | some deed =>
    simp only [bind_some, map_some, Registry.rekey_some]
    split
    · rfl
    · rfl

theorem wp_rekeyListings (h : Seen db R I ws s) :
    (alone T).wp v (rekeyListings l a b) (fun _ ws s =>
      Seen db { R with seller := fun n => Registry.rekey a b (R.seller n) } I ws s) ws s := by
  refine wp_change h fun s' h => h.put ?_ (by simp)
  rw [← h.books, books_listings]
  refine Registry.ext rfl rfl (funext fun m => ?_)
  simp only [get_setMany_changes, seller_eq]
  cases (s'.view ws).uinListings.get m with
  | none => rfl
  | some listing =>
    simp only [bind_some, map_some, Registry.rekey_some]
    split
    · rfl
    · rfl

theorem wp_keepVacated (h : Seen db R I ws s) (l : TakePart → Label) :
    (alone T).wp v (keepVacated l a b) (fun _ ws s =>
      Seen db (if R.owner a = none ∧ Scarce a then R.give a b else R) I ws s) ws s := by
  refine wp_ask h fun s' h => ?_
  have howner : R.owner a = none ↔ (s'.view ws).ownedUins.get a = none := by
    rw [← h.books, owner_eq_none]
  cases hget : (s'.view ws).ownedUins.get a with
  | some deed =>
    rw [if_neg (fun hc => by simp [howner, hget] at hc)]
    exact h
  | none =>
    refine wp_onlyIf (fun hscarce => ?_) fun hordinary => ?_
    · rw [if_pos ⟨howner.mpr hget, hscarce⟩]
      exact wp_insertDeed h fun _ => rfl
    · rw [if_neg fun hc => hordinary hc.2]
      exact h

/-- A move takes the account, its deeds and its listings along, and keeps a scarce number. -/
theorem wp_moveRows (h : Seen db R I ws s) (door : Door) (user : UserRow) :
    (alone T).wp v (moveRows door user a b) (fun _ ws s => a ∈ R.inUse ∧ b ∉ R.inUse ∧
      Seen db (R.move Scarce a b) (update (update I b user.identity) a none) ws s) ws s := by
  refine wp_seq (wp_lockUser h) ?_
  rintro locked ws s ⟨h, hlocked⟩
  refine wp_raiseIf_bind fun hsome => ?_
  obtain ⟨row, rfl⟩ := ne_none_iff_exists'.mp hsome
  refine wp_seq (wp_insertUser h user.identity fun _ => rfl) ?_
  rintro _ ws s ⟨hb, h⟩
  refine wp_seq (wp_rekeyDeeds h) fun _ ws s h => ?_
  refine wp_seq (wp_rekeyListings h) fun _ ws s h => ?_
  refine wp_seq (wp_keepVacated h _) fun _ ws s h => ?_
  refine wp_mono (wp_dropUser h) fun _ ws s h => ⟨(hlocked row rfl).1, hb, h.still, ?_, h.people⟩
  exact h.books.trans (Registry.move_eq_steps Scarce R a b rfl)

/-- A deed that changes hands. -/
theorem wp_moveDeed (h : Seen db R I ws s) {seller : Uin} :
    (alone T).wp v (moveDeed l n seller b) (fun moved ws s => moved = true →
      Seen db (R.give n b) I ws s ∧ R.owner n = some seller) ws s := by
  refine wp_change h fun s' h hmoved => ?_
  obtain ⟨deed, hget, hseller⟩ := (any_eq_true _ _).mp hmoved
  have howner : deed.ownerUin = seller := by simpa using hseller
  simp only [hget, filter_some, hseller, if_true, map_some, toList_some]
  refine ⟨h.put ((books_deed_some _).trans ?_) (by simp), ?_⟩
  · rw [h.books]
  · rw [← h.books, owner_eq, hget, map_some, howner]

/-- What is left of a row when those of `a` go. -/
private theorem map_dropped {ν : Type} (key : ν → Uin) (d : Option ν) :
    (d.bind fun row => (if key row = a then some none else none).getD (some row)).map key =
      (d.map key).filter (· ≠ a) := by
  cases d with
  | none => rfl
  | some row =>
    by_cases hrow : key row = a
    · simp [hrow, filter_some]
    · simp [hrow, filter_some]

theorem wp_dropDeeds (h : Seen db R I ws s) : (alone T).wp v (dropDeeds a) (fun _ ws s =>
      Seen db { R with owner := fun n => (R.owner n).filter (· ≠ a) } I ws s) ws s := by
  refine wp_change h fun s' h => h.put ?_ (by simp)
  rw [← h.books, books_deeds]
  refine Registry.ext rfl (funext fun m => ?_) rfl
  simp only [get_setMany_changes, owner_eq]
  exact map_dropped Deed.ownerUin _

theorem wp_dropListings (h : Seen db R I ws s) : (alone T).wp v (dropListings a) (fun _ ws s =>
      Seen db { R with seller := fun n => (R.seller n).filter (· ≠ a) } I ws s) ws s := by
  refine wp_change h fun s' h => h.put ?_ (by simp)
  rw [← h.books, books_listings]
  refine Registry.ext rfl rfl (funext fun m => ?_)
  simp only [get_setMany_changes, seller_eq]
  exact map_dropped Listing.sellerUin _

end RcqServer.Numbers
