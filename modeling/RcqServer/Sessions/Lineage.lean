import RcqServer.Sessions.Denylist

/-!
# What a linked device's token can be turned into

A linked device's token expires for good after 90 days.  The routes that mint a token for the bearer
of another one carry its device over and mint an install's token, which does not expire.
-/

namespace RcqServer.Sessions

open ReadCommitted World

/-- The tokens that were minted, directly or not, for the bearer of `first`. -/
inductive Obtained (issued : List Issue) (first : Token) : Token → Prop
  | refl : Obtained issued first first
  | mint {i : Issue} {token : Token} (obtained : Obtained issued first token) (mem : i ∈ issued)
      (bearer : i.bearer = some token) : Obtained issued first i.token

/-- No token is minted for the bearer of a linked device's token. -/
def NoRemint (_ : World) : Action Request → Prop
  | .start r => ∀ token ∈ r.remints, token.linked = false
  | _ => True

instance : DecidableRel NoRemint := by
  rintro w (_ | _) <;> unfold NoRemint <;> infer_instance

/-- Whoever has had a token minted as a bearer was no linked device. -/
def InstallsOnly (e : Ext) : Prop :=
  ∀ i ∈ e.issued, ∀ token ∈ i.bearer, token.linked = false

theorem InstallsOnly.step {cfg : Config} {r : Request} {l : Label} {e e' : Ext}
    (hr : ∀ token ∈ r.remints, token.linked = false) (hdoes : Does cfg r l e e')
    (h : InstallsOnly e) : InstallsOnly e' := by
  cases hdoes with
  | quiet hq =>
    intro i hi
    exact h i (hq.issued ▸ hi)
  | mint _ hbearer =>
    intro i hi token htoken
    rcases List.mem_cons.mp hi with rfl | hi
    · exact hr token (hbearer ▸ htoken)
    · exact h i hi token htoken
  | mintLinked epoch _ =>
    intro i hi token htoken
    rcases List.mem_cons.mp hi with rfl | hi
    · cases htoken
    · exact h i hi token htoken
  | _ => exact h

/-- From a linked device's token only itself is obtained. -/
theorem InstallsOnly.eq_of_obtained {e : Ext} (h : InstallsOnly e) {first token : Token}
    (hfirst : first.linked) (hobtained : Obtained e.issued first token) : token = first := by
  induction hobtained with
  | refl => rfl
  | mint _ hmem hbearer ih =>
    subst ih
    have hnot := h _ hmem _ hbearer
    rw [hfirst] at hnot
    cases hnot

/-- The browser that the phone, device 9, has linked. -/
abbrev browser : Token := issueDeviceToken 1000 1 0 0

/-- The browser is linked and used, and tries again when its token has expired. -/
def lateBrowser : List (Action Request) :=
  .start (Request.login 1 (some 9)) :: steps 0 10 ++
    .start (Request.linkDevice (issueToken 1000 1 0 (some 9)) "Web") :: steps 1 20 ++
    .start (Request.check browser) :: steps 2 10 ++ .start (Request.tick (days 90)) :: steps 3 3 ++
    .start (Request.check browser) :: steps 4 10

/-- What `POST /auth/session` hands to the browser. -/
abbrev refreshed : Token := issueToken 1000 1 0 (some 0)

/-- The browser refreshes its session once, and comes back when its own token has expired. -/
def refreshedBrowser : List (Action Request) :=
  .start (Request.login 1 (some 9)) :: steps 0 10 ++
    .start (Request.linkDevice (issueToken 1000 1 0 (some 9)) "Web") :: steps 1 20 ++
    .start (Request.session browser) :: steps 2 20 ++ .start (Request.tick (days 90)) :: steps 3 3 ++
    .start (Request.check refreshed) :: steps 4 10

end RcqServer.Sessions
