import RcqServer.Base64
import RcqServer.Basic

/-!
# The texts of a public key

Keys arrive and are stored as texts, in whatever spelling the caller has chosen.
-/

namespace RcqServer

/-- A key as it is stored: base64, stripped of blanks. -/
abbrev KeyText := List Char

/-- `reissue_proof.decode_key32`: the 32 bytes of a key text, padded or not. -/
def decodeKey32 (text : KeyText) : Option (List ℕ) :=
  (Base64.decode (Base64.pad text)).filter (·.length = 32)

/-- `_pubkey32`: a text that decodes to 32 bytes is kept as it is. -/
def pubkey32 (text : KeyText) (field : String) : Except HttpError KeyText :=
  match Base64.decode (Base64.pad text) with
  | none => .error ⟨422, field ++ " is not base64"⟩
  | some raw =>
    if raw.length = 32 then .ok text
    else .error ⟨422, field ++ " must be 32 bytes, got " ++ toString raw.length⟩

theorem isSome_of_pubkey32 {text kept : KeyText} {field : String}
    (h : pubkey32 text field = .ok kept) : (decodeKey32 text).isSome := by
  unfold pubkey32 at h
  unfold decodeKey32
  split at h
  · cases h
  · rename_i raw hraw
    split at h
    · rename_i hlength
      rw [hraw, Option.filter_some, if_pos (decide_eq_true hlength)]
      rfl
    · cases h

/-- `key_spellings`: the padded and the unpadded text. -/
def keySpellings (raw : List ℕ) : List KeyText :=
  [Base64.encode raw, Base64.unpad (Base64.encode raw)]

/-- A text is one of the two usual spellings of its key, or is none. -/
def usualSpelling (text : KeyText) : Bool :=
  (decodeKey32 text).all fun key => (keySpellings key).contains text

theorem mem_keySpellings {text : KeyText} {key : List ℕ} (husual : usualSpelling text)
    (hdecode : decodeKey32 text = some key) : text ∈ keySpellings key := by
  rw [usualSpelling, hdecode, Option.all_some] at husual
  exact List.contains_iff_mem.mp husual

end RcqServer
