import Mathlib.Data.List.DropRight

/-!
# What all parts of the service share
-/

namespace RcqServer

/-- Account numbers. -/
abbrev Uin := ℕ

/-- The install id that a token carries.  Opaque: it is only ever compared. -/
abbrev DeviceId := ℕ

/-- Seconds since the epoch. -/
abbrev Time := ℕ

/-- The seconds in `n` days. -/
def days (n : ℕ) : Time := n * 86400

/-- Texts are compared by their equality. -/
instance lawfulBEqText : LawfulBEq (List Char) := inferInstance

/-- `str.strip`. -/
def strip (text : List Char) : List Char :=
  (text.dropWhile Char.isWhitespace).rdropWhile Char.isWhitespace

/-- `HTTPException`; of a detail that is an object, the code. -/
structure HttpError where
  status : ℕ
  detail : String
deriving DecidableEq

end RcqServer
