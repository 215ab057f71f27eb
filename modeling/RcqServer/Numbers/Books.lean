import RcqServer.Registry.Holdings
import RcqServer.Numbers.Footprint
import RcqServer.ReadCommitted.Undisturbed

/-!
# The books behind the tables

`Db.books` reads the registry off the tables: the accounts are the names in use, the deeds say who
owns a number and the listings who sells it.  Below are what each row write does to the books, and
what each statement does to them in a request beside which nobody commits: `Seen db R I` says that
`db` is committed, and that the running transaction sees the books `R` and the identities `I`.
-/

namespace RcqServer.Numbers

open ReadCommitted Prog Outline Function Option Table

/-- Who has which number. -/
def Db.books (db : Db) : Registry Uin where
  inUse := {n | (db.users.get n).isSome}
  owner n := (db.ownedUins.get n).map Deed.ownerUin
  seller n := (db.uinListings.get n).map Listing.sellerUin

variable {db : Db} {n a b : Uin}

theorem mem_inUse : n ∈ db.books.inUse ↔ (db.users.get n).isSome := Iff.rfl

theorem owner_eq : db.books.owner n = (db.ownedUins.get n).map Deed.ownerUin := rfl

theorem seller_eq : db.books.seller n = (db.uinListings.get n).map Listing.sellerUin := rfl

theorem owner_eq_none : db.books.owner n = none ↔ db.ownedUins.get n = none :=
  map_eq_none_iff

theorem seller_eq_none : db.books.seller n = none ↔ db.uinListings.get n = none :=
  map_eq_none_iff

/-- The identity of an account. -/
def UserRow.identity (row : UserRow) : Option (List ℕ) :=
  decodeKey32 row.signingKey

/-- The identity that answers as a number. -/
def Db.identityAt (db : Db) (m : Uin) : Option (List ℕ) :=
  (db.users.get m).bind UserRow.identity

theorem mem_inUse_of_identityAt {who : List ℕ} (h : db.identityAt n = some who) :
    n ∈ db.books.inUse := by
  obtain ⟨row, hrow, -⟩ := bind_eq_some_iff.mp h
  rw [mem_inUse, hrow]
  rfl

/-! ## Row writes -/

theorem identityAt_user (row : Option UserRow) : (Write.apply (.user n row) db).identityAt =
    update db.identityAt n (row.bind UserRow.identity) := by
  funext m
  simp only [Db.identityAt, Write.apply, get_set, update_apply]
  split
  · rfl
  · rfl

theorem books_user_some (row : UserRow) :
    (Write.apply (.user n (some row)) db).books = db.books.enter n := by
  ext m
  · simp only [Registry.enter, Set.mem_insert_iff, mem_inUse, Write.apply, get_set]
    split
    · simp [*]
    · simp [*]
  · rfl
  · rfl

theorem books_user_none :
    (Write.apply (.user n none) db).books = { db.books with inUse := db.books.inUse \ {n} } := by
  ext m
  · simp only [Set.mem_sdiff, Set.mem_singleton_iff, mem_inUse, Write.apply, get_set]
    split
    · simp [*]
    · simp [*]
  · rfl
  · rfl

theorem books_deed_some (deed : Deed) :
    (Write.apply (.deed n (some deed)) db).books = db.books.give n deed.ownerUin := by
  refine Registry.ext rfl (funext fun m => ?_) rfl
  simp only [Registry.give, update_apply, owner_eq, Write.apply, get_set]
  split
  · rfl
  · rfl

theorem books_deed_none : (Write.apply (.deed n none) db).books = db.books.release n := by
  refine Registry.ext rfl (funext fun m => ?_) rfl
  simp only [Registry.release, update_apply, owner_eq, Write.apply, get_set]
  split
  · rfl
  · rfl

theorem books_listing_some (listing : Listing) :
    (Write.apply (.listing n (some listing)) db).books = db.books.offer n listing.sellerUin := by
  refine Registry.ext rfl rfl (funext fun m => ?_)
  simp only [Registry.offer, update_apply, seller_eq, Write.apply, get_set]
  split
  · rfl
  · rfl

theorem books_listing_none : (Write.apply (.listing n none) db).books = db.books.withdraw n := by
  refine Registry.ext rfl rfl (funext fun m => ?_)
  simp only [Registry.withdraw, update_apply, seller_eq, Write.apply, get_set]
  split
  · rfl
  · rfl

/-- Many deeds at once. -/
theorem books_deeds (l : List (Uin × Option Deed)) (db : Db) :
    (applyAll (l.map fun c => Write.deed c.1 c.2) db).books =
      { db.books with owner := fun n => ((db.ownedUins.setMany l).get n).map Deed.ownerUin } := by
  have hdeed : ∀ w ∈ l.map fun c => Write.deed c.1 c.2, ∃ n row, w = .deed n row := by
    intro w hw
    obtain ⟨c, -, rfl⟩ := List.mem_map.mp hw
    exact ⟨_, _, rfl⟩
  refine Registry.ext ?_ (funext fun n => ?_) ?_
  · refine applyAll_eq_of_forall (fun db : Db => db.books.inUse) db fun w hw d => ?_
    obtain ⟨n, row, rfl⟩ := hdeed w hw
    rfl
  · rw [owner_eq, sets_ownedUins.applyAll_map]
  · refine applyAll_eq_of_forall (fun db : Db => db.books.seller) db fun w hw d => ?_
    obtain ⟨n, row, rfl⟩ := hdeed w hw
    rfl

/-- Many listings at once. -/
theorem books_listings (l : List (Uin × Option Listing)) (db : Db) :
    (applyAll (l.map fun c => Write.listing c.1 c.2) db).books = { db.books with
        seller := fun n => ((db.uinListings.setMany l).get n).map Listing.sellerUin } := by
  have hlisting : ∀ w ∈ l.map fun c => Write.listing c.1 c.2, ∃ n row, w = .listing n row := by
    intro w hw
    obtain ⟨c, -, rfl⟩ := List.mem_map.mp hw
    exact ⟨_, _, rfl⟩
  refine Registry.ext ?_ ?_ (funext fun n => ?_)
  · refine applyAll_eq_of_forall (fun db : Db => db.books.inUse) db fun w hw d => ?_
    obtain ⟨n, row, rfl⟩ := hlisting w hw
    rfl
  · refine applyAll_eq_of_forall (fun db : Db => db.books.owner) db fun w hw d => ?_
    obtain ⟨n, row, rfl⟩ := hlisting w hw
    rfl
  · rw [seller_eq, sets_uinListings.applyAll_map]

/-- A write that is not about the books. -/
def Aside : Write → Prop
  | .user _ _ | .deed _ _ | .listing _ _ => False
  | _ => True

theorem books_aside {w : Write} (hw : Aside w) (db : Db) : (Write.apply w db).books = db.books := by
  cases w with
  | user _ _ => exact hw.elim
  | deed _ _ => exact hw.elim
  | listing _ _ => exact hw.elim
  | hold _ _ => rfl
  | spent _ _ => rfl
  | invite _ _ => rfl

/-- Writes that are not about accounts. -/
theorem identityAt_applyAll {new : List Write} (hnew : ∀ n row, Write.user n row ∉ new) (db : Db) :
    (applyAll new db).identityAt = db.identityAt := by
  refine applyAll_eq_of_forall Db.identityAt db fun w hw d => ?_
  cases w with
  | user n row => exact absurd hw (hnew n row)
  | _ => rfl

/-! ## The transaction and what is committed -/

variable {ρ : Type} {T : ρ → Db → Db → Prop} {v : ρ} {R R' : Registry Uin}
  {I I' : Uin → Option (List ℕ)} {ws : List Write} {s s' : State}

/-- What is committed is `db`, and the request sees the books `R` and the identities `I`. -/
structure Seen (db : Db) (R : Registry Uin) (I : Uin → Option (List ℕ)) (ws : List Write)
    (s : State) : Prop where
  still : s.db = db
  books : (s.view ws).books = R
  people : (s.view ws).identityAt = I

theorem Seen.start (s : State) : Seen s.db s.db.books s.db.identityAt [] s := ⟨rfl, rfl, rfl⟩

theorem Seen.stable (h : Seen db R I ws s) (hdb : s'.db = s.db) : Seen db R I ws s' := by
  have hview : s'.view ws = s.view ws := congrArg (applyAll ws) hdb
  exact ⟨hdb.trans h.still, hview ▸ h.books, hview ▸ h.people⟩

theorem Seen.append (h : Seen db R I ws s) {new : List Write}
    (hbooks : (applyAll new (s.view ws)).books = R')
    (hpeople : (applyAll new (s.view ws)).identityAt = I') : Seen db R' I' (ws ++ new) s := by
  refine ⟨h.still, ?_, ?_⟩
  · rw [Shared.view, applyAll_append]
    exact hbooks
  · rw [Shared.view, applyAll_append]
    exact hpeople

theorem Seen.put (h : Seen db R I ws s) {new : List Write}
    (hbooks : (applyAll new (s.view ws)).books = R')
    (hnew : ∀ n row, Write.user n row ∉ new) : Seen db R' I (ws ++ new) s :=
  h.append hbooks ((identityAt_applyAll hnew _).trans h.people)

theorem Seen.setUser (h : Seen db R I ws s) (row : UserRow) :
    Seen db (R.enter n) (update I n row.identity) (ws ++ [.user n (some row)]) s := by
  refine h.append ((books_user_some row).trans ?_) ((identityAt_user _).trans ?_)
  · rw [h.books]
  · rw [h.people, bind_some]

/-- An account whose columns change has the identity that it had. -/
theorem Seen.restate (h : Seen db R I ws s) {row row' : UserRow}
    (hrow : (s.view ws).users.get n = some row) (hsame : row'.identity = row.identity) :
    Seen db R I (ws ++ [.user n (some row')]) s := by
  have hset := h.setUser (n := n) row'
  have hmem : n ∈ R.inUse := by
    rw [← h.books, mem_inUse, hrow]
    rfl
  have hwho : I n = row'.identity := by
    rw [← h.people, Db.identityAt, hrow, hsame]
    rfl
  rwa [Registry.enter_of_mem hmem, ← hwho, update_eq_self] at hset

/-! ## Statements -/

section Statements

variable {α β : Type} {Q : α → List Write → State → Prop} {p : Handler β} {f : β → Handler α}
  {l : Label} {e : HttpError}

theorem seen_carried : (alone T).Carried v (fun _ : Label => True) Aside (Seen db R I) where
  stable l ws s s' _ h hrely _ := h.stable (hrely (some_ne_none l))
  write ws s new h _ hnew := by
    refine h.put ?_ fun n row hw => hnew _ hw
    exact (applyAll_eq_of_forall Db.books _ fun w hw => books_aside (hnew w hw)).trans h.books

/-- A part of a request that is not about the books. -/
theorem wp_aside (hp : p.Part Aside (fun _ => True)) (h : Seen db R I ws s)
    (hf : ∀ a ws s, Seen db R I ws s → (alone T).wp v (f a) Q ws s) :
    (alone T).wp v (p.bind f) Q ws s :=
  wp_part_bind alone_coherent seen_carried hp h hf

theorem wp_ask {q : Db → Ext → β} (h : Seen db R I ws s)
    (hf : ∀ s', Seen db R I ws s' → (alone T).wp v (f (q (s'.view ws) s'.ext)) Q ws s') :
    (alone T).wp v ((read l q).bind f) Q ws s :=
  wp_bind.mpr (wp_read alone_coherent fun s' hrely _ _ =>
    hf s' (h.stable (hrely (some_ne_none l))))

theorem wp_change {w : Db → Ext → List Write} {q : Db → Ext → α} (h : Seen db R I ws s)
    (hQ : ∀ s', Seen db R I ws s' → Q (q (s'.view ws) s'.ext) (ws ++ w (s'.view ws) s'.ext) s') :
    (alone T).wp v (write l w q : Handler α) Q ws s :=
  wp_write alone_coherent fun s' hrely _ _ => hQ s' (h.stable (hrely (some_ne_none l)))

theorem wp_insertUser (h : Seen db R I ws s) {row : Time → UserRow} (who : Option (List ℕ))
    (hrow : ∀ t, (row t).identity = who) : (alone T).wp v (insert l (·.users.get n) (.user n) row e)
      (fun _ ws s => n ∉ R.inUse ∧ Seen db (R.enter n) (update I n who) ws s) ws s := by
  refine wp_insert alone_coherent fun s' hrely _ hnone => ?_
  have h := h.stable (hrely (some_ne_none l))
  refine ⟨fun hmem => ?_, hrow s'.ext.now ▸ h.setUser _⟩
  rw [← h.books, mem_inUse, hnone] at hmem
  cases hmem

theorem wp_insertDeed (h : Seen db R I ws s) {row : Time → Deed}
    (hrow : ∀ t, (row t).ownerUin = a) :
    (alone T).wp v (insert l (·.ownedUins.get n) (.deed n) row e)
      (fun _ ws s => Seen db (R.give n a) I ws s) ws s := by
  refine wp_insert alone_coherent fun s' hrely _ hnone => ?_
  have h := h.stable (hrely (some_ne_none l))
  refine h.put ((books_deed_some _).trans ?_) (by simp)
  rw [h.books, hrow]

theorem wp_insertListing (h : Seen db R I ws s) {row : Time → Listing}
    (hrow : ∀ t, (row t).sellerUin = a) :
    (alone T).wp v (insert l (·.uinListings.get n) (.listing n) row e)
      (fun _ ws s => Seen db (R.offer n a) I ws s) ws s := by
  refine wp_insert alone_coherent fun s' hrely _ hnone => ?_
  have h := h.stable (hrely (some_ne_none l))
  refine h.put ((books_listing_some _).trans ?_) (by simp)
  rw [h.books, hrow]

theorem wp_updateUser (h : Seen db R I ws s) {f : Time → UserRow → UserRow}
    (hf : ∀ t row, (f t row).identity = row.identity) :
    (alone T).wp v (updateUser n f) (fun _ ws s => Seen db R I ws s) ws s :=
  wp_update alone_coherent fun _ _ hrely _ hrow =>
    (h.stable (hrely (some_ne_none _))).restate hrow (hf _ _)

theorem wp_lockUser (h : Seen db R I ws s) :
    (alone T).wp v (lockUser l a) (fun row ws s => Seen db R I ws s ∧
      ∀ user ∈ row, a ∈ R.inUse ∧ I a = user.identity) ws s := by
  refine wp_change h fun s' h => ?_
  cases hget : (s'.view ws).users.get a with
  | none => exact ⟨h.put h.books (by simp), nofun⟩
  | some row =>
    refine ⟨h.restate hget rfl, ?_⟩
    rintro _ ⟨⟩
    rw [← h.books, ← h.people, mem_inUse, Db.identityAt, hget]
    exact ⟨rfl, rfl⟩

theorem wp_drop {ν : Type} {get : Db → Option ν} {mk : Option ν → Write} (h : Seen db R I ws s)
    (hsome : ∀ s', Seen db R I ws s' → Seen db R' I' (ws ++ [mk none]) s')
    (hnone : ∀ s', Seen db R I ws s' → get (s'.view ws) = none → R = R' ∧ I = I') :
    (alone T).wp v (drop l get mk) (fun _ ws s => Seen db R' I' ws s) ws s := by
  refine wp_change h fun s' h => ?_
  cases hget : get (s'.view ws) with
  | some row => exact hsome s' h
  | none =>
    obtain ⟨rfl, rfl⟩ := hnone s' h hget
    exact h.put h.books (by simp)

theorem wp_dropUser (h : Seen db R I ws s) :
    (alone T).wp v (drop l (·.users.get n) (.user n)) (fun _ ws s =>
      Seen db { R with inUse := R.inUse \ {n} } (update I n none) ws s) ws s := by
  refine wp_drop h (fun s' h => ?_) fun s' h hget => ?_
  · refine h.append (books_user_none.trans ?_) ((identityAt_user _).trans ?_)
    · rw [h.books]
    · rw [h.people, bind_none]
  · have hnot : n ∉ R.inUse := by
      rw [← h.books, mem_inUse, hget]
      simp
    have hwho : none = I n := by
      rw [← h.people, Db.identityAt, hget]
      rfl
    simp [Set.sdiff_singleton_eq_self hnot, hwho.symm]

theorem wp_dropDeed (h : Seen db R I ws s) : (alone T).wp v (drop l (·.ownedUins.get n) (.deed n))
      (fun _ ws s => Seen db (R.release n) I ws s) ws s := by
  refine wp_drop h (fun s' h => ?_) fun s' h hget => ⟨?_, rfl⟩
  · exact h.put (books_deed_none.trans (by rw [h.books])) (by simp)
  · have hnone : none = R.owner n := by rw [← h.books, owner_eq_none.mpr hget]
    exact Registry.ext rfl (update_eq_self_iff.mpr hnone).symm rfl

theorem wp_dropListing (h : Seen db R I ws s) :
    (alone T).wp v (drop l (·.uinListings.get n) (.listing n))
      (fun _ ws s => Seen db (R.withdraw n) I ws s) ws s := by
  refine wp_drop h (fun s' h => ?_) fun s' h hget => ⟨?_, rfl⟩
  · exact h.put (books_listing_none.trans (by rw [h.books])) (by simp)
  · have hnone : none = R.seller n := by rw [← h.books, seller_eq_none.mpr hget]
    exact Registry.ext rfl rfl (update_eq_self_iff.mpr hnone).symm

end Statements

end RcqServer.Numbers
