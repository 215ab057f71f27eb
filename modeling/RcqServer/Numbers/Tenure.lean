import RcqServer.Numbers.Server

/-!
# Does somebody hold a number elsewhere?

`services/reserved_tenure.py`.  A registration that asks for a scarce number gets it if an island
that the operator trusts answers, for that number, with a key card and a signed record of the same
key.  What the caller offers, and what this island mirrors for the key, only decide which of the
trusted islands are asked.

The documents are whatever `json.loads` has made of what somebody sent.  The signature of a record,
`str.lower` and the length of `json.dumps` are given (`Codec`).
-/

namespace RcqServer.Numbers

open List

/-! ## Documents -/

/-- A document.  `NaN` and the infinities are `null`, which they are as good as here: they are no
text, no list, no object, and equal to no number. -/
inductive Json
  | null
  | bool (b : Bool)
  | num (value : ℚ)
  | str (text : List Char)
  | arr (items : List Json)
  | obj (fields : List (String × Json))

namespace Json

/-- `isinstance(doc, dict)`. -/
def isObj : Json → Bool
  | obj _ => true
  | _ => false

/-- `doc.get(key)` of a dict. -/
def get (doc : Json) (key : String) : Option Json :=
  match doc with
  | obj fields => fields.lookup key
  | _ => none

/-- `value == uin` in Python, where `True` is 1. -/
def equals (doc : Json) (uin : Uin) : Bool :=
  match doc with
  | num value => value = uin
  | bool b => b.toNat = uin
  | _ => false

/-- A number, not a truth value, that is equal to `uin`. -/
def isNumber (doc : Json) (uin : Uin) : Bool :=
  match doc with
  | num value => value = uin
  | _ => false

end Json

/-! ## Hosts -/

abbrev Host := List Char

structure Codec where
  /-- `str.lower`. -/
  lower : List Char → List Char
  /-- `len(json.dumps(doc).encode())`; `none` if it cannot be written. -/
  dumpsLength : Json → Option ℕ
  /-- `_verify_record_sig`. -/
  verifyRecordSig : Json → Bool

variable (codec : Codec)

/-- The name and the port of a host. -/
def splitPort (host : List Char) : List Char × List Char :=
  if host.head? = some '[' then
    match host.findIdx? (· = ']') with
    | some close =>
      if host[close + 1]? = some ':' then (host.take (close + 1), host.drop (close + 2))
      else (host, [])
    | none => (host, [])
  else if host.count ':' = 1 then
    (host.takeWhile (· ≠ ':'), (host.dropWhile (· ≠ ':')).tail)
  else (host, [])

/-- `canonical_host`. -/
def canonicalHost (value : List Char) : Host :=
  let (name, port) := splitPort (codec.lower (strip value))
  let name := name.rdropWhile (· = '.')
  if port ≠ [] ∧ port ≠ "443".toList then name ++ ':' :: port else name

/-- `[a-z0-9.\-]{1,253}(:[0-9]{1,5})?`. -/
def hostShaped (host : Host) : Bool :=
  let name := host.takeWhile (· ≠ ':')
  let port := host.dropWhile (· ≠ ':')
  let digit := fun c : Char => '0' ≤ c ∧ c ≤ '9'
  decide (1 ≤ name.length ∧ name.length ≤ 253) &&
    name.all (fun c => decide ('a' ≤ c ∧ c ≤ 'z' ∨ digit c ∨ c = '.' ∨ c = '-')) &&
    (port.isEmpty || decide (2 ≤ port.length ∧ port.length ≤ 6) && port.tail.all (digit ·))

/-- The settings that say who this island is and whom it trusts. -/
structure Island where
  /-- `island_host`. -/
  islandHost : List Char
  /-- `FRONT_ALIAS_HOSTS`. -/
  frontAliasHosts : List Char
  /-- `TENURE_TRUSTED_ISLANDS`. -/
  tenureTrustedIslands : List Char

variable (island : Island)

/-- `own_hosts`: the configured name, or the one in the `Host` header, the fronts, and the one in
the header in any case. -/
def ownHosts (header : List Char) : List Host :=
  let configured := canonicalHost codec island.islandHost
  let own := if configured = [] then canonicalHost codec header else configured
  let fronts := (island.frontAliasHosts.splitOn ',').filter fun h => strip h ≠ []
  ([own].filter (· ≠ [])) ++ fronts.map (canonicalHost codec) ++
    ([canonicalHost codec header].filter (· ≠ []))

/-- `trusted_islands`. -/
def trustedIslands (own : List Host) : List Host :=
  (((island.tenureTrustedIslands.splitOn ',').map (canonicalHost codec)).filter fun host =>
    decide (host ≠ [] ∧ host ∉ own) && hostShaped host).eraseDups

/-! ## Records -/

/-- `_same_key`: two texts of one 32-byte key. -/
def sameKey (doc : Option Json) (key : KeyText) : Bool :=
  match doc with
  | some (.str text) =>
    match decodeKey32 (strip text), decodeKey32 key with
    | some raw, some raw' => raw = raw'
    | _, _ => false
  | _ => false

/-- The host that an entry of `homes` names, if it names the number there. -/
def namedHost (uin : Uin) (home : Json) : Option Host :=
  match home.get "host", home.get "uin" with
  | some (.str host), some n => if n.isNumber uin then some (canonicalHost codec host) else none
  | _, _ => none

/-- `_islands_naming`. -/
def islandsNaming (doc : Json) (uin : Uin) (key : KeyText) (trusted : List Host) : List Host :=
  if doc.isObj && sameKey (doc.get "sk") key then
    match doc.get "homes" with
    | some (.arr homes) =>
      let named := ((homes.filterMap (namedHost codec uin)).filter (· ∈ trusted)).eraseDups
      if named ≠ [] ∧ codec.verifyRecordSig doc = true then named else []
    | _ => []
  else []

/-! ## Asking an island -/

/-- What an island is asked about a number. -/
inductive Page
  | islandRecord (uin : Uin)
  | keys (uin : Uin)

/-- What comes of a request to an island. -/
inductive Reply
  /-- `httpx.HTTPError`, `OSError` or a timeout. -/
  | unreachable
  /-- Any other exception. -/
  | failed
  /-- No 200, too long, or not JSON. -/
  | nothing
  | document (doc : Json)

/-- Whether the loop over the islands survives a failure. -/
inductive Failure
  | network
  | other

/-- `_get_json`. -/
def Reply.getJson : Reply → Except Failure (Option Json)
  | unreachable => .error .network
  | failed => .error .other
  | nothing => .ok none
  | document doc => .ok (if doc.isObj then some doc else none)

/-- What a registration brings along for the lookup. -/
structure Lookup where
  /-- The `Host` header. -/
  header : List Char
  /-- `home_record`. -/
  offered : Option Json
  /-- The mirrored record of the key, if there is one that is JSON; the read may fail. -/
  mirror : Except Unit (Option Json)
  ask : Host → Page → Reply

variable (q : Lookup)

/-- `_island_confirms`. -/
def islandConfirms (host : Host) (uin : Uin) (key : KeyText) : Except Failure Bool := do
  let record ← (q.ask host (.islandRecord uin)).getJson
  let card ← (q.ask host (.keys uin)).getJson
  match record, card with
  | some record, some card =>
    return (card.get "uin").any (·.equals uin) && sameKey (card.get "signing_key") key &&
      decide (islandsNaming codec record uin key [host] = [host])
  | _, _ => return false

/-- The loop over the islands. -/
def anyConfirms (uin : Uin) (key : KeyText) : List Host → Bool
  | [] => false
  | host :: rest =>
    match islandConfirms codec q host uin key with
    | .ok true => true
    | .ok false => anyConfirms uin key rest
    | .error .network => anyConfirms uin key rest
    | .error .other => false

/-- `_MAX_BODY`. -/
def maxBody : ℕ := 8 * 1024

/-- `_MAX_ISLANDS`. -/
def maxIslands : ℕ := 3

/-- The islands that the offered record points to. -/
def offeredPointers (uin : Uin) (key : KeyText) (trusted : List Host) : List Host :=
  match q.offered with
  | some doc =>
    if doc.isObj && (codec.dumpsLength doc).any (· ≤ maxBody) then
      islandsNaming codec doc uin key trusted
    else []
  | none => []

/-- `holds_elsewhere`. -/
def holdsElsewhere (uin : Uin) (key : KeyText) : Bool :=
  let trusted := trustedIslands codec island (ownHosts codec island q.header)
  if trusted = [] then false
  else
    let offered := offeredPointers codec q uin key trusted
    match q.mirror with
    | .error _ => false
    | .ok mirrored =>
      let mirrored := (mirrored.map fun doc => islandsNaming codec doc uin key trusted).getD []
      let pointers := offered ++ mirrored.filter (· ∉ offered)
      anyConfirms codec q uin key (pointers.take maxIslands)

/-! ## What an answer is worth -/

/-- An island that is trusted and is not this one answers, for the number, with a key card of the
key and with a signed record of the key that names the number there. -/
def VouchedFor (uin : Uin) (key : KeyText) : Prop :=
  ∃ host ∈ trustedIslands codec island (ownHosts codec island q.header),
    host ∉ ownHosts codec island q.header ∧ ∃ record card,
      q.ask host (.keys uin) = .document card ∧
      q.ask host (.islandRecord uin) = .document record ∧
      (∃ n, card.get "uin" = some n ∧ n.equals uin) ∧ sameKey (card.get "signing_key") key ∧
      sameKey (record.get "sk") key ∧ codec.verifyRecordSig record ∧
      ∃ homes, record.get "homes" = some (.arr homes) ∧
        ∃ home ∈ homes, namedHost codec uin home = some host

variable {codec island q} {uin : Uin} {key : KeyText} {trusted : List Host} {host : Host}

theorem notMem_own_of_trusted {own : List Host} (h : host ∈ trustedIslands codec island own) :
    host ∉ own := by
  simp only [trustedIslands, mem_eraseDups, mem_filter, Bool.and_eq_true,
    decide_eq_true_eq] at h
  exact h.2.1.2

/-- A record that names a host among some names the number there and is signed. -/
theorem mem_islandsNaming {doc : Json} (h : host ∈ islandsNaming codec doc uin key trusted) :
    host ∈ trusted ∧ sameKey (doc.get "sk") key ∧ codec.verifyRecordSig doc ∧
      ∃ homes, doc.get "homes" = some (.arr homes) ∧
        ∃ home ∈ homes, namedHost codec uin home = some host := by
  unfold islandsNaming at h
  split at h
  · rename_i hdoc
    rw [Bool.and_eq_true] at hdoc
    split at h
    · rename_i homes hhomes
      dsimp only at h
      split at h
      · rename_i hsigned
        rw [mem_eraseDups, mem_filter, mem_filterMap] at h
        obtain ⟨⟨home, hmem, hname⟩, htrusted⟩ := h
        exact ⟨of_decide_eq_true htrusted, hdoc.2, hsigned.2, homes, hhomes, home, hmem, hname⟩
      · cases h
    · cases h
  · cases h

theorem document_of_getJson {reply : Reply} {doc : Json} (h : reply.getJson = .ok (some doc)) :
    reply = .document doc := by
  cases reply with
  | document doc' =>
    simp only [Reply.getJson, Except.ok.injEq, Option.ite_none_right_eq_some,
      Option.some.injEq] at h
    rw [h.2]
  | _ => cases h

/-- An island that confirms has answered with both documents. -/
theorem vouchedFor_of_confirms
    (htrusted : host ∈ trustedIslands codec island (ownHosts codec island q.header))
    (h : islandConfirms codec q host uin key = .ok true) : VouchedFor codec island q uin key := by
  unfold islandConfirms at h
  cases hrecord : (q.ask host (.islandRecord uin)).getJson with
  | error e =>
    rw [hrecord] at h
    cases h
  | ok record =>
    cases hcard : (q.ask host (.keys uin)).getJson with
    | error e =>
      rw [hrecord, hcard] at h
      cases h
    | ok card =>
      rw [hrecord, hcard] at h
      cases record with
      | none => cases h
      | some record =>
        cases card with
        | none => cases h
        | some card =>
          have hchecks := Except.ok.inj h
          simp only [Bool.and_eq_true, decide_eq_true_eq] at hchecks
          obtain ⟨⟨hnumber, hkey⟩, hnaming⟩ := hchecks
          have hmem : host ∈ islandsNaming codec record uin key [host] := by
            rw [hnaming]
            exact mem_singleton.mpr rfl
          obtain ⟨-, hsk, hsigned, hhomes⟩ := mem_islandsNaming hmem
          refine ⟨host, htrusted, notMem_own_of_trusted htrusted, record, card,
            document_of_getJson hcard, document_of_getJson hrecord, ?_, hkey, hsk, hsigned,
            hhomes⟩
          cases hn : card.get "uin" with
          | none =>
            rw [hn] at hnumber
            cases hnumber
          | some n =>
            rw [hn] at hnumber
            exact ⟨n, rfl, hnumber⟩

theorem exists_confirms {hosts : List Host} (h : anyConfirms codec q uin key hosts) :
    ∃ host ∈ hosts, islandConfirms codec q host uin key = .ok true := by
  induction hosts with
  | nil => cases h
  | cons host rest ih =>
    unfold anyConfirms at h
    have hrest : anyConfirms codec q uin key rest →
        ∃ h ∈ host :: rest, islandConfirms codec q h uin key = .ok true := by
      intro hrest
      obtain ⟨h, hmem, hconfirms⟩ := ih hrest
      exact ⟨h, mem_cons_of_mem _ hmem, hconfirms⟩
    split at h
    · exact ⟨host, mem_cons_self, ‹_›⟩
    · exact hrest h
    · exact hrest h
    · cases h

theorem mem_trusted_of_offered (h : host ∈ offeredPointers codec q uin key trusted) :
    host ∈ trusted := by
  unfold offeredPointers at h
  split at h
  · split at h
    · exact (mem_islandsNaming h).1
    · cases h
  · cases h

/-- **Nobody but a trusted island that is not this one has a say**, whatever is offered, mirrored
and written into the headers. -/
theorem vouchedFor_of_holdsElsewhere (h : holdsElsewhere codec island q uin key) :
    VouchedFor codec island q uin key := by
  unfold holdsElsewhere at h
  simp only at h
  split at h
  · cases h
  split at h
  · cases h
  rename_i mirrored _
  obtain ⟨host, hmem, hconfirms⟩ := exists_confirms h
  refine vouchedFor_of_confirms ?_ hconfirms
  rcases mem_append.mp (mem_of_mem_take hmem) with hoffered | hmirrored
  · exact mem_trusted_of_offered hoffered
  · cases mirrored with
    | none => cases (mem_filter.mp hmirrored).1
    | some doc => exact (mem_islandsNaming (mem_filter.mp hmirrored).1).1

end RcqServer.Numbers
