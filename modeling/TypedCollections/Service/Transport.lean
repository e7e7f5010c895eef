import TypedCollections.Service.Request

/-!
Conversations with the store. A transport sends requests, one after the other, and gives an answer
to each; here it is the list of the answers that it will give. A token, which everybody shares, says
whether the caller wants to go on; it can be cancelled at any time, also while a request is sent.
-/

namespace TypedCollections

/-- A failed request, with the status that the other side gave. -/
structure TransportError where
  status : Nat
  message : String
  deriving DecidableEq, Repr

def TransportError.describe (e : TransportError) : String :=
  "request failed with status " ++ toString e.status ++ ": " ++ e.message

/-- The answer to one request, and whether the token is cancelled before it comes. -/
structure Response where
  cancels : Bool := false
  answer : Request → Except TransportError Json.Value

/-- The state of a conversation. -/
structure Session where
  /-- The answers that are still to come. -/
  pending : List Response
  /-- The answer to every request after those. -/
  exhausted : TransportError
  cancelled : Bool := false
  /-- The requests that were sent, in order. -/
  sent : List Request := []

namespace Session

def cancel (s : Session) : Session := { s with cancelled := true }

/-- Sends a request. -/
def send (r : Request) (s : Session) : Except TransportError Json.Value × Session :=
  match s.pending with
  | [] => (.error s.exhausted, { s with sent := s.sent ++ [r] })
  | response :: pending =>
    (response.answer r,
      { s with pending, cancelled := s.cancelled || response.cancels, sent := s.sent ++ [r] })

/-- Every answered request uses one answer up. -/
theorem pending_send_lt {r : Request} {s t : Session} {v : Json.Value}
    (h : s.send r = (.ok v, t)) : t.pending.length < s.pending.length := by
  unfold send at h
  split at h
  · cases h
  · next hp =>
    rw [hp, ← (Prod.mk.inj h).2]
    exact Nat.lt_succ_self _

end Session
end TypedCollections
