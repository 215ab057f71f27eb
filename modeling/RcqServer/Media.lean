import RcqServer.Basic

/-!
# Blobs under ids that clients choose

`PUT /media/{id}` looks whether the blob is there, streams its body to a file of its own and links that
file to the name of the blob: a link to a name that exists fails, so the first copy stands.  The name is
the id in lower case.  `GET /media/{id}` looks under the id as it is spelled, so a blob that was
deposited under an id with a capital letter is not found under that id.
-/

namespace RcqServer.Media

open Function

abbrev MediaId := List Char

abbrev Blob := List UInt8

/-- `MAX_BLOB_SIZE`, by default. -/
def maxBlobSize : ℕ := 512 * 1024 * 1024

/-- `media_id.lower()`. -/
def lower (id : MediaId) : MediaId := id.map Char.toLower

/-! ## The ids that `uuid.UUID(hex=...)` takes -/

/-- `s.replace(pat, "")`; the next `skip` characters belong to an occurrence. -/
def removing (pat : List Char) : ℕ → List Char → List Char
  | _, [] => []
  | skip + 1, _ :: s => removing pat skip s
  | 0, c :: s =>
    if pat.isPrefixOf (c :: s) then removing pat (pat.length - 1) s else c :: removing pat 0 s

/-- Hexadecimal digits, with single underscores between them; `digit` tells whether one is right
before. -/
def hexDigits : Bool → List Char → Bool
  | digit, [] => digit
  | digit, '_' :: s => digit && hexDigits false s
  | _, c :: s => (c.isDigit || ('a' ≤ c.toLower && c.toLower ≤ 'f')) && hexDigits true s

/-- `int(s, 16)` goes through. -/
def isInt16 (s : List Char) : Bool :=
  let s := strip s
  match if s.head? = some '+' then s.tail else s with
  | '0' :: 'x' :: s | '0' :: 'X' :: s => hexDigits false (if s.head? = some '_' then s.tail else s)
  | s => hexDigits false s

/-- `uuid.UUID(hex=id)` goes through. -/
def isUuid (id : MediaId) : Bool :=
  let bare := removing ['u', 'u', 'i', 'd', ':'] 0 (removing ['u', 'r', 'n', ':'] 0 id)
  let hex := removing ['-'] 0 ((bare.dropWhile ['{', '}'].contains).rdropWhile ['{', '}'].contains)
  hex.length == 32 && isInt16 hex

/-! ## The store -/

structure State where
  /-- The blobs, by the names of their files. -/
  files : MediaId → Option Blob
  /-- The deposits that are streaming, with the names that they are going to link. -/
  uploads : List (MediaId × Blob)
  /-- The completed deposits, first to last. -/
  done : List (MediaId × Blob)

def State.empty : State := ⟨fun _ => none, [], []⟩

/-- The first completed deposit under a name. -/
def State.first (s : State) (name : MediaId) : Option Blob :=
  (s.done.find? (·.1 == name)).map Prod.snd

inductive Action
  /-- A deposit arrives, and looks whether its blob is there. -/
  | deposit (id : MediaId) (blob : Blob)
  /-- A body has been streamed, and is linked unless it is too large. -/
  | link (k : ℕ)

section

variable (isId : MediaId → Bool) (limit : ℕ)

/-- What the next step of `deposit` and `_stream_to` does; a step may never come. -/
def State.next (s : State) : Action → State
  | .deposit id blob =>
    if isId id = false then s
    else if (s.files (lower id)).isSome then { s with done := s.done ++ [(lower id, blob)] }
    else { s with uploads := s.uploads ++ [(lower id, blob)] }
  | .link k =>
    match s.uploads[k]? with
    | none => s
    | some (name, blob) =>
      if limit < blob.length then { s with uploads := s.uploads.eraseIdx k }
      else
        { files := update s.files name (some ((s.files name).getD blob))
          uploads := s.uploads.eraseIdx k
          done := s.done ++ [(name, blob)] }

/-- `fetch`, of the whole blob. -/
def State.fetch (s : State) (id : MediaId) : Option Blob :=
  if isId id then s.files id else none

inductive Reachable : State → Prop
  | empty : Reachable .empty
  | next {s : State} (a : Action) : Reachable s → Reachable (s.next isId limit a)

end

/-- The first copies stand, under names in lower case. -/
structure Ordered (s : State) : Prop where
  files : ∀ name, s.files name = s.first name
  uploads : ∀ x ∈ s.uploads, lower x.1 = x.1
  done : ∀ x ∈ s.done, lower x.1 = x.1

variable {isId : MediaId → Bool} {limit : ℕ} {s : State} {id : MediaId} {blob : Blob}

theorem toLower_toLower (c : Char) : c.toLower.toLower = c.toLower := by
  unfold Char.toLower
  split
  · rename_i hupper
    rw [dif_neg]
    rintro ⟨-, hle⟩
    have hA := UInt32.le_iff_toNat_le.mp hupper.1
    have hZ := UInt32.le_iff_toNat_le.mp hle
    have hZ' := UInt32.le_iff_toNat_le.mp hupper.2
    simp at hA hZ hZ'
    omega
  · rfl

theorem lower_lower (id : MediaId) : lower (lower id) = lower id := by
  simp [lower, toLower_toLower]

theorem first_append (name : MediaId) {files : MediaId → Option Blob}
    {uploads : List (MediaId × Blob)} (x : MediaId × Blob) :
    State.first ⟨files, uploads, s.done ++ [x]⟩ name =
      (s.first name).or (if x.1 = name then some x.2 else none) := by
  unfold State.first
  rw [List.find?_append, Option.map_or, List.find?_singleton]
  by_cases hname : x.1 = name <;> simp [hname]

theorem Ordered.next (h : Ordered s) (a : Action) : Ordered (s.next isId limit a) := by
  have hdone : ∀ x : MediaId × Blob, lower x.1 = x.1 → ∀ y ∈ s.done ++ [x], lower y.1 = y.1 := by
    intro x hx y hy
    rcases List.mem_append.mp hy with hy | hy
    · exact h.done y hy
    · exact List.mem_singleton.mp hy ▸ hx
  cases a with
  | deposit id blob =>
    simp only [State.next]
    split_ifs with hid hthere
    · exact h
    · -- the copy that is there was first
      refine ⟨fun name => ?_, h.uploads, hdone _ (lower_lower id)⟩
      rw [first_append, ← h.files name]
      by_cases hname : lower id = name
      · obtain ⟨old, hold⟩ := Option.isSome_iff_exists.mp hthere
        simp [← hname, hold]
      · simp [hname]
    · refine ⟨h.files, fun x hx => ?_, h.done⟩
      rcases List.mem_append.mp hx with hx | hx
      · exact h.uploads x hx
      · exact List.mem_singleton.mp hx ▸ lower_lower id
  | link k =>
    simp only [State.next]
    split
    · exact h
    rename_i name blob hk
    have hrest : ∀ x ∈ s.uploads.eraseIdx k, lower x.1 = x.1 :=
      fun x hx => h.uploads x (List.mem_of_mem_eraseIdx hx)
    split_ifs
    · exact ⟨h.files, hrest, h.done⟩
    · refine ⟨fun other => ?_, hrest, hdone _ (h.uploads _ (List.mem_of_getElem? hk))⟩
      rw [first_append, ← h.files other]
      by_cases hname : name = other
      · subst hname
        cases s.files name <;> simp
      · simp [hname, update_of_ne (Ne.symm hname)]

theorem Reachable.ordered (h : Reachable isId limit s) : Ordered s := by
  induction h with
  | empty => exact ⟨fun _ => rfl, nofun, nofun⟩
  | next a _ ih => exact ih.next a

theorem reachable_foldl (actions : List Action) :
    Reachable isId limit (actions.foldl (State.next isId limit) .empty) :=
  List.foldlRecOn actions _ .empty fun _ h a _ => .next a h

end RcqServer.Media
