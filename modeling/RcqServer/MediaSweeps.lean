import RcqServer.Media
import Mathlib.Data.List.Sort

/-!
# Two collectors, one store

`media_sweep` unlinks old blobs that no row refers to.  `report_sweep` unlinks the blobs that the
attachments of a report name, whatever else refers to them: a reporter types these ids.  A report with
somebody's avatar for an attachment takes the avatar with it.
-/

namespace RcqServer.MediaSweeps

open Media List

structure Report where
  id : ℕ
  reporter : Uin
  target : Uin
  bugBounty : Bool
  attachments : List MediaId
  resolvedAt : Option Time
  hiddenAt : Option Time
  redacted : Bool

structure State where
  now : Time
  nextId : ℕ
  /-- The blobs, with the times of their last change. -/
  blobs : List (MediaId × Time)
  /-- The avatars of users and of rooms. -/
  avatars : List ((Uin ⊕ ℕ) × MediaId)
  reports : List Report
  /-- `report_messages`. -/
  turns : List (ℕ × List MediaId)

def State.initial (now : Time) : State := ⟨now, 0, [], [], [], []⟩

def maxAttachmentsPerReport : ℕ := 3
def mediaMaxAge : Time := days 30
def maxDeletionsPerCycle : ℕ := 2000
def resolvedMaxAge : Time := days 90
def maxPerCycle : ℕ := 500

/-- `_referenced_ids`. -/
def State.referenced (s : State) : List MediaId :=
  (s.avatars.map Prod.snd ++ s.reports.flatMap Report.attachments ++ s.turns.flatMap Prod.snd).map
    lower

/-- `media_sweep.sweep_once`. -/
def State.mediaSweep (s : State) : State :=
  let old := s.blobs.filter fun x => x.2 + mediaMaxAge < s.now
  let doomed := (old.filter fun x => lower x.1 ∉ s.referenced).take maxDeletionsPerCycle
  { s with blobs := s.blobs.filter (· ∉ doomed) }

/-- The stem of the file that an attachment names: `Path(mid).name.lower()`. -/
def fileOf (mid : MediaId) : MediaId :=
  lower (((mid.splitOn '/').filter fun part => part ≠ [] ∧ part ≠ ['.']).getLast?.getD [])

def Report.expired (now : Time) (r : Report) : Bool :=
  (r.resolvedAt.any (· + resolvedMaxAge < now) || r.hiddenAt.any (· + resolvedMaxAge < now)) &&
    !r.redacted

/-- The reports of a pass, oldest first. -/
def State.swept (s : State) : List Report :=
  ((s.reports.filter (Report.expired s.now)).insertionSort fun a b =>
    (a.resolvedAt.or a.hiddenAt).getD 0 ≤ (b.resolvedAt.or b.hiddenAt).getD 0).take maxPerCycle

/-- `report_sweep.sweep_once`. -/
def State.reportSweep (s : State) : State :=
  let ids := s.swept.map Report.id
  { s with
    blobs := s.blobs.filter fun x => x.1 ∉ s.swept.flatMap fun r => r.attachments.map fileOf
    turns := s.turns.filter fun t => t.1 ∉ ids
    reports := s.reports.filterMap fun r =>
      if r.id ∉ ids then some r
      else if r.bugBounty then some { r with attachments := [], redacted := true }
      else none }

inductive Request
  | upload (id : MediaId)
  | setAvatar (owner : Uin ⊕ ℕ) (id : Option MediaId)
  | createReport (uin target : Uin) (bugBounty : Bool) (attachments : List MediaId)
  | addTurn (uin : Uin) (report : ℕ) (attachments : List MediaId)
  | resolve (report : ℕ) (reopen : Bool)
  | withdraw (uin : Uin) (report : ℕ)
  | mediaSweep
  | reportSweep
  | tick (seconds : ℕ)

def State.serve (s : State) : Request → State
  | .upload id => { s with blobs := s.blobs ++ [(id, s.now)] }
  | .setAvatar owner id =>
    { s with avatars := s.avatars.filter (·.1 ≠ owner) ++ (id.map (owner, ·)).toList }
  | .createReport uin target bugBounty attachments =>
    if target = if bugBounty then 0 else uin then s
    else if bugBounty ∧ maxAttachmentsPerReport < attachments.length then s
    else
      let kept := if bugBounty then attachments else []
      { s with
        reports := s.reports ++ [⟨s.nextId, uin, target, bugBounty, kept, none, none, false⟩]
        nextId := s.nextId + 1 }
  | .addTurn uin id attachments =>
    match s.reports.find? fun r => r.id = id ∧ r.reporter = uin ∧ r.hiddenAt = none with
    | none => s
    | some r =>
      if r.resolvedAt.isSome ∨ maxAttachmentsPerReport < attachments.length then s
      else { s with turns := s.turns ++ [(id, if r.bugBounty then attachments else [])] }
  | .resolve id reopen =>
    { s with reports := s.reports.map fun r =>
        if r.id = id then { r with resolvedAt := if reopen then none else some s.now } else r }
  | .withdraw uin id =>
    { s with reports := s.reports.map fun r =>
        if r.id = id ∧ r.reporter = uin ∧ (r.resolvedAt.isSome ∨ r.target = uin) ∧ r.hiddenAt = none
        then { r with hiddenAt := some s.now } else r }
  | .mediaSweep => s.mediaSweep
  | .reportSweep => s.reportSweep
  | .tick seconds => { s with now := s.now + seconds }

/-- What a report and its turns are not among. -/
def State.elsewhere (s : State) (r : Report) : List MediaId :=
  (s.avatars.map Prod.snd ++ (s.reports.filter (·.id ≠ r.id)).flatMap Report.attachments ++
    (s.turns.filter (·.1 ≠ r.id)).flatMap Prod.snd).map lower

/-- Nothing else refers to the blobs that reports have for attachments. -/
def Unshared (s : State) : Prop :=
  ∀ r ∈ s.reports, ∀ mid ∈ r.attachments, fileOf mid ∉ s.elsewhere r

variable {s : State}

theorem mem_of_mem_swept {r : Report} (h : r ∈ s.swept) : r ∈ s.reports :=
  (mem_filter.mp ((mem_insertionSort _).mp (mem_of_mem_take h))).1

/-- What a pass over the reports leaves has nothing to do with the reports it has swept. -/
theorem elsewhere_of_referenced {r : Report} (h : r ∈ s.swept) {name : MediaId}
    (hname : name ∈ s.reportSweep.referenced) : name ∈ s.elsewhere r := by
  have hne : ∀ id ∉ s.swept.map Report.id, id ≠ r.id :=
    fun id hid heq => hid (heq ▸ mem_map_of_mem h)
  simp only [State.referenced, State.elsewhere, mem_map, mem_append, mem_flatMap] at hname ⊢
  obtain ⟨mid, hmid, rfl⟩ := hname
  refine ⟨mid, ?_, rfl⟩
  rcases hmid with (havatar | ⟨other, hother, hmid⟩) | ⟨turn, hturn, hmid⟩
  · exact .inl (.inl havatar)
  · obtain ⟨old, hold, heq⟩ := mem_filterMap.mp hother
    split_ifs at heq with hid
    · cases heq
      cases hmid
    · cases heq
      exact .inl (.inr ⟨other, mem_filter.mpr ⟨hold, by simpa using hne _ hid⟩, hmid⟩)
  · obtain ⟨hold, hid⟩ := mem_filter.mp hturn
    exact .inr ⟨turn, mem_filter.mpr ⟨hold, by simpa using hne _ (by simpa using hid)⟩, hmid⟩

/-- **No pass unlinks a blob that is still referred to** when no other row refers to the attachments
of a report. -/
theorem sweeps_spare_referenced (hs : Unshared s) {q : Request}
    (hq : q matches .mediaSweep | .reportSweep) {x : MediaId × Time} (hx : x ∈ s.blobs)
    (hgone : x ∉ (s.serve q).blobs) : lower x.1 ∉ (s.serve q).referenced := by
  cases q with
  | mediaSweep =>
    simp only [State.serve, State.mediaSweep, mem_filter, hx, true_and, decide_eq_true_eq,
      not_not] at hgone
    exact of_decide_eq_true (mem_filter.mp (mem_of_mem_take hgone)).2
  | reportSweep =>
    simp only [State.serve, State.reportSweep, mem_filter, hx, true_and, decide_eq_true_eq,
      not_not, mem_flatMap, mem_map] at hgone
    obtain ⟨r, hr, mid, hmid, hfile⟩ := hgone
    intro hreferenced
    refine hs r (mem_of_mem_swept hr) mid hmid ?_
    have hlower : lower x.1 = fileOf mid := by rw [← hfile, fileOf, lower_lower]
    exact hlower ▸ elsewhere_of_referenced hr hreferenced
  | _ => simp at hq

/-- Account 7 has the blob `ab` for an avatar, and withdraws a report with an attachment. -/
def withdrawn (attachment : MediaId) : State :=
  [.upload ['a', 'b'], .upload ['c', 'd'], .setAvatar (.inl 7) (some ['a', 'b']),
    .createReport 7 7 true [attachment], .withdraw 7 0, .tick (days 91)].foldl State.serve (.initial 0)

theorem sweeps_spare_referenced_other :
    lower ['c', 'd'] ∉ ((withdrawn ['c', 'd']).serve .reportSweep).referenced := by
  refine sweeps_spare_referenced (s := withdrawn ['c', 'd']) (x := (['c', 'd'], 0)) ?_ rfl ?_ ?_
  · unfold Unshared
    decide +kernel
  all_goals decide +kernel

/-- The pass unlinks the avatar. -/
theorem reported_avatar_unlinked : (['a', 'b'], 0) ∈ (withdrawn ['a', 'b']).blobs ∧
    (['a', 'b'], 0) ∉ ((withdrawn ['a', 'b']).serve .reportSweep).blobs ∧
    lower ['a', 'b'] ∈ ((withdrawn ['a', 'b']).serve .reportSweep).referenced := by
  decide +kernel

end RcqServer.MediaSweeps
