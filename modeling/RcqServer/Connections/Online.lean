import RcqServer.Connections.Presence

/-!
# A device that is gone is not online

The expiry belongs to the set, not to its members.  As long as one device of an account keeps putting
it off, the set also keeps the devices that have nobody to take them out: those of a worker that has
died, and those whose socket had to make room for another one, since `disconnect` does not find their
device any more.  The condition `Attended` says that nobody puts off the expiry of a set in which there
is such a device.
-/

namespace RcqServer.Connections

open ReadCommitted Prog List Option Function World Expiring

variable {e e' : Ext} {cap : ℤ} {uin : Uin} {dev : Dev}

/-! ## Steps -/

/-- What the statement with a label does. -/
def Steps : Label → Ext → Ext → Prop
  | .accept, e, e' => ∃ cap p ws, e' = e.accept cap p ws
  | .lose ws, e, e' => e' = e.lose (· == ws)
  | .crash n, e, e' => e' = e.crash n
  | .maps, e, e' => ∃ n f, e' = e.onWorker n f
  | .sadd uin dev, e, e' => e' = e.sadd uin dev
  | .expire uin, e, e' => e' = e.expire uin
  | .srem, e, e' => ∃ uin dev, e' = e.srem uin dev
  | .del, e, e' => ∃ uin, e' = e.del uin
  | .frame, e, e' => e' = e
  | .smembers, e, e' => e' = e
  | .tick, e, e' => ∃ seconds, e' = { e with now := e.now + seconds }

theorem sadd_follows (uin : Uin) (dev : Dev) : (sadd uin dev).Follows Steps :=
  Follows.effect fun _ _ => rfl

theorem expire_follows (uin : Uin) : (expire uin).Follows Steps := Follows.effect fun _ _ => rfl

theorem srem_follows (uin : Uin) (dev : Dev) : (srem uin dev).Follows Steps :=
  Follows.effect fun _ _ => ⟨uin, dev, rfl⟩

theorem closeDevice_follows (n : ℕ) (uin : Uin) (dev : Dev) :
    (closeDevice n uin dev).Follows Steps :=
  Follows.effect fun _ _ => ⟨n, _, rfl⟩

theorem connect_follows (cap : ℤ) (p : Endpoint) (ws : Socket) :
    (connect cap p ws).Follows Steps := by
  refine Follows.bind (fun _ e => ⟨⟨cap, p, ws, rfl⟩, trivial⟩) fun ok => ?_
  refine Follows.ite ?_ trivial
  exact Follows.bind (sadd_follows _ _) fun _ => Follows.bind (expire_follows _) fun _ => trivial

theorem disconnect_follows (ws : Socket) : (disconnect ws).Follows Steps := by
  refine Follows.bind (fun _ e => ⟨rfl, trivial⟩) fun p => ?_
  cases p with
  | none => exact trivial
  | some p =>
    refine Follows.bind (fun _ e => ⟨⟨p.worker, _, rfl⟩, trivial⟩) fun gone => ?_
    cases gone with
    | none => exact trivial
    | some dev => exact srem_follows _ _

theorem frame_follows (ws : Socket) : (frame ws).Follows Steps := by
  refine Follows.bind (Follows.read (fun _ => rfl) _) fun p => ?_
  cases p with
  | none => exact trivial
  | some p => exact Follows.bind (sadd_follows _ _) fun _ => expire_follows _

theorem onlineDevices_follows (uin : Uin) : (onlineDevices uin).Follows Steps := by
  refine Follows.bind (Follows.read (fun _ => rfl) _) fun raw => ?_
  refine Follows.ite trivial ?_
  exact Follows.bind (expire_follows _) fun _ => trivial

theorem handler_follows (r : Request) : (handler cap r).Follows Steps := by
  cases r with
  | connect p ws => exact Follows.bind (connect_follows cap p ws) fun _ => trivial
  | disconnect ws => exact Follows.bind (disconnect_follows ws) fun _ => trivial
  | frame ws => exact Follows.bind (frame_follows ws) fun _ => trivial
  | onlineDevices uin => exact Follows.bind (onlineDevices_follows uin) fun _ => trivial
  | supersede n uin dev => exact Follows.bind (closeDevice_follows n uin dev) fun _ => trivial
  | kickDevice n uin dev =>
    refine Follows.bind (Follows.bind (closeDevice_follows n uin dev) fun _ => ?_)
      fun _ => trivial
    exact srem_follows uin dev
  | kickUin uin => exact Follows.bind (Follows.effect fun _ _ => ⟨uin, rfl⟩) fun _ => trivial
  | closeUin n uin => exact Follows.bind (Follows.effect fun _ _ => ⟨n, _, rfl⟩) fun _ => trivial
  | crash n => exact Follows.bind (Follows.effect fun _ _ => rfl) fun _ => trivial
  | tick seconds =>
    exact Follows.bind (Follows.effect fun _ _ => ⟨seconds, rfl⟩) fun _ => trivial

/-! ## The invariant -/

/-- A device may be in a set with the expiry `t`: it is connected, or the set expires within the TTL
after a socket of the device was lost. -/
def Ext.MayStay (e : Ext) (uin : Uin) (dev : Dev) (t : Option ℕ) : Prop :=
  e.connected uin dev ∨
    ∃ x ∈ e.losses, x.uin = uin ∧ x.dev = dev ∧ ∃ y ∈ t, y ≤ x.time + onlineDevsTtl

/-- The set of an account is as it may be. -/
def Ext.Allowed (e : Ext) (uin : Uin) (devices : List Dev) (t : Option ℕ) : Prop :=
  (∀ y ∈ t, y ≤ e.now + onlineDevsTtl) ∧ ∀ dev ∈ devices, e.MayStay uin dev t

structure Inv (e : Ext) : Prop where
  accepted : ∀ ws ∈ e.live, (e.accepted ws).isSome
  allowed : ∀ uin, Only (e.Allowed uin) (e.devs uin)

theorem connected_iff : e.connected uin dev ↔
    ∃ ws ∈ e.live, ∃ p ∈ e.accepted ws, p.uin = uin ∧ p.dev = dev := by
  simp [Ext.connected, Option.any_eq_true]

/-- If one set changes in an allowed way, the invariant stays. -/
theorem Inv.update (hinv : Inv e) {k : Option (Entry (List Dev))}
    (hk : Only (e.Allowed uin) k) : Inv { e with devs := update e.devs uin k } where
  accepted := hinv.accepted
  allowed other := by
    by_cases hother : other = uin
    · subst hother
      dsimp only
      rw [update_self]
      exact hk
    · dsimp only
      rw [update_of_ne hother]
      exact hinv.allowed other

theorem Inv.sadd (hinv : Inv e) (hdev : e.connected uin dev) : Inv (e.sadd uin dev) := by
  refine hinv.update ((hinv.allowed uin).alter ?_ ?_)
  · rintro devices t ⟨ht, hstay⟩ devices' hnew
    obtain rfl : devices.insert dev = devices' := some.inj hnew
    refine ⟨ht, fun d hd => ?_⟩
    rcases mem_insert_iff.mp hd with rfl | hd
    · exact .inl hdev
    · exact hstay d hd
  · intro devices hnew
    obtain rfl : [dev] = devices := some.inj hnew
    refine ⟨nofun, fun d hd => ?_⟩
    rw [mem_singleton.mp hd]
    exact .inl hdev

theorem Inv.expire (hinv : Inv e) (hdevs : ∀ dev ∈ e.members uin, e.connected uin dev) :
    Inv (e.expire uin) := by
  refine hinv.update (only_expire fun devices hread => ⟨?_, fun dev hdev => .inl ?_⟩)
  · rintro y hy
    exact (some.inj hy).ge
  · refine hdevs dev ?_
    rw [Ext.members, mem_def.mp hread]
    exact hdev

theorem Inv.srem (hinv : Inv e) (uin : Uin) (dev : Dev) : Inv (e.srem uin dev) := by
  refine hinv.update ((hinv.allowed uin).alter ?_ nofun)
  rintro devices t ⟨ht, hstay⟩ devices' hnew
  obtain ⟨hmap, -⟩ := filter_eq_some_iff.mp hnew
  obtain rfl : devices.filter (· ≠ dev) = devices' := some.inj hmap
  exact ⟨ht, fun d hd => hstay d (mem_filter.mp hd).1⟩

/-- The set of the socket's account has an expiry. -/
def Ext.willExpire (e : Ext) (ws : Socket) : Bool :=
  (e.accepted ws).all fun p => (e.devs p.uin).all (·.expires.isSome)

/-- Sockets may be lost while the sets that they keep alive have an expiry. -/
theorem Inv.lose (hinv : Inv e) {gone : Socket → Bool}
    (hgone : ∀ ws ∈ e.live, gone ws → e.willExpire ws) : Inv (e.lose gone) := by
  refine ⟨fun ws hws => hinv.accepted ws (mem_filter.mp hws).1, fun uin x hx => ?_⟩
  obtain ⟨ht, hstay⟩ := hinv.allowed uin x hx
  refine ⟨ht, fun dev hdev => ?_⟩
  rcases hstay dev hdev with hconn | ⟨l, hl, hloss⟩
  · obtain ⟨ws, hws, p, hp, rfl, rfl⟩ := connected_iff.mp hconn
    by_cases hlost : gone ws
    · -- the expiry was set before the loss
      have hexp : x.expires.isSome := by
        have hset : e.devs p.uin = some x := hx
        have hwill := hgone ws hws hlost
        rw [Ext.willExpire, mem_def.mp hp, all_some, hset] at hwill
        exact hwill
      obtain ⟨y, hy⟩ := isSome_iff_exists.mp hexp
      refine .inr ⟨⟨p.uin, p.dev, e.now⟩, mem_append_left _ ?_, rfl, rfl, y, hy, ht y hy⟩
      exact mem_filterMap.mpr ⟨ws, mem_filter.mpr ⟨hws, hlost⟩,
        map_eq_some_iff.mpr ⟨p, hp, rfl⟩⟩
    · refine .inl (connected_iff.mpr ⟨ws, mem_filter.mpr ⟨hws, ?_⟩, p, hp, rfl, rfl⟩)
      simpa using hlost
  · exact .inr ⟨l, mem_append_right _ hl, hloss⟩

theorem Inv.accept (hinv : Inv e) (cap : ℤ) (p : Endpoint) (ws : Socket) :
    Inv (e.accept cap p ws) := by
  unfold Ext.accept
  split
  case isFalse => exact hinv
  case isTrue haccepts =>
    have hnew : e.accepted ws = none := by
      rw [Ext.accepts, Bool.and_eq_true] at haccepts
      exact isNone_iff_eq_none.mp haccepts.2
    have hne : ∀ other ∈ e.live, other ≠ ws := by
      rintro other hother rfl
      have hsome := hinv.accepted other hother
      rw [hnew] at hsome
      exact Bool.false_ne_true hsome
    refine ⟨fun other hother => ?_, fun uin => (hinv.allowed uin).imp fun devices t h => ?_⟩
    · rcases mem_cons.mp hother with rfl | hother
      · simp
      · dsimp only
        rw [update_of_ne (hne other hother)]
        exact hinv.accepted other hother
    · refine ⟨h.1, fun dev hdev => (h.2 dev hdev).imp_left fun hconn => ?_⟩
      obtain ⟨other, hother, q, hq, hqdev⟩ := connected_iff.mp hconn
      refine connected_iff.mpr ⟨other, mem_cons_of_mem _ hother, q, ?_, hqdev⟩
      dsimp only
      rw [update_of_ne (hne other hother)]
      exact hq

/-! ## Runs -/

/-- A set is added to and its expiry put off only while all devices that it then has are connected;
and a socket is lost only while the set of its account has an expiry. -/
def Label.Attended (e : Ext) : Label → Prop
  | .sadd uin dev => e.connected uin dev
  | .expire uin => ∀ dev ∈ e.members uin, e.connected uin dev
  | .lose ws => ws ∈ e.live → e.willExpire ws
  | .crash n => ∀ ws ∈ e.live, e.onCrashed n ws → e.willExpire ws
  | _ => True

theorem Inv.steps (l : Label) (hcond : l.Attended e) (hstep : Steps l e e') (hinv : Inv e) :
    Inv e' := by
  cases l with
  | accept =>
    obtain ⟨cap, p, ws, rfl⟩ := hstep
    exact hinv.accept cap p ws
  | lose ws =>
    obtain rfl : e' = _ := hstep
    refine hinv.lose fun ws' hlive hgone => ?_
    obtain rfl : ws' = ws := beq_iff_eq.mp hgone
    exact hcond hlive
  | crash n =>
    obtain rfl : e' = _ := hstep
    have hlost := hinv.lose hcond
    exact ⟨hlost.accepted, hlost.allowed⟩
  | maps =>
    obtain ⟨n, f, rfl⟩ := hstep
    exact ⟨hinv.accepted, hinv.allowed⟩
  | sadd uin dev =>
    obtain rfl : e' = _ := hstep
    exact hinv.sadd hcond
  | expire uin =>
    obtain rfl : e' = _ := hstep
    exact hinv.expire hcond
  | srem =>
    obtain ⟨uin, dev, rfl⟩ := hstep
    exact hinv.srem uin dev
  | del =>
    obtain ⟨uin, rfl⟩ := hstep
    exact hinv.update nofun
  | frame =>
    obtain rfl : e' = _ := hstep
    exact hinv
  | smembers =>
    obtain rfl : e' = _ := hstep
    exact hinv
  | tick =>
    obtain ⟨seconds, rfl⟩ := hstep
    refine ⟨hinv.accepted, fun uin => (hinv.allowed uin).imp fun devices t h => ⟨?_, h.2⟩⟩
    exact fun y hy => (h.1 y hy).trans
      (Nat.add_le_add_right (Nat.le_add_right _ _) onlineDevsTtl)

/-- Every step of the run is attended. -/
def Attended (w : World) : Action Request → Prop
  | .step n => ∀ x ∈ w.upcoming n, x.2.Attended w.shared.ext
  | _ => True

theorem onlineDevices_exec (uin : Uin) (s : State) :
    ((onlineDevices uin).exec s).1 = .ok (s.ext.members uin) := by
  have hread : onlineDevices uin =
      (read .smembers fun _ e => e.members uin : Handler (List Dev)).bind fun raw =>
        if raw.isEmpty then .ret raw else (expire uin).bind fun _ => .ret raw := rfl
  rw [hread]
  simp only [Prog.read, Prog.bind, exec, run]
  split
  · rfl
  · rfl

section Example

instance (e : Ext) (l : Label) : Decidable (l.Attended e) := by
  rcases l with _ | _ <;> unfold Label.Attended <;> infer_instance

instance : DecidableRel Attended := by
  rintro w (_ | _) <;> unfold Attended <;> infer_instance

/-- A phone on one worker and a laptop on another. -/
def phoneAndLaptop : List (Action Request) :=
  .start (Request.connect ⟨0, 1, primary⟩ 0) :: steps 0 4 ++
    .start (Request.connect ⟨1, 1, ['l']⟩ 1) :: steps 1 4

/-- The phone leaves; much later the laptop sends a frame. -/
def phoneLeaves : List (Action Request) :=
  phoneAndLaptop ++ .start (Request.disconnect 0) :: steps 2 4 ++ .start (Request.tick 170) :: steps 3 2 ++
    .start (Request.frame 1) :: steps 4 4 ++ .start (Request.tick 170) :: steps 5 2

/-- The worker of the phone dies, and the laptop goes on sending frames. -/
def workerDies : List (Action Request) :=
  phoneAndLaptop ++ .start (Request.crash 0) :: steps 2 2 ++ .start (Request.tick 170) :: steps 3 2 ++
    .start (Request.frame 1) :: steps 4 4 ++ .start (Request.tick 170) :: steps 5 2 ++
    .start (Request.onlineDevices 1) :: steps 6 3

end Example

end RcqServer.Connections
