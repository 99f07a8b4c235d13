import ContentOverlay.Session.Progress

/-!
# Running requests

`Session.settle` makes steps until nothing is under way but the requests of the client, all of them
answered.  `Session.run` carries out a request of the client in this way and gives the answer.
-/

set_option autoImplicit false

namespace ContentOverlay
namespace Session

/-- Steps until nothing is left to be done. -/
def settle (s : Session) : Session :=
  match h : s.advance with
  | none => s
  | some t =>
    have := advance_decreases h
    t.settle
termination_by (s.work, s.load)
decreasing_by exact this

/-! ## The client's requests -/

/-- A session in which nothing has happened yet. -/
def start (config : Config) (clock : Timestamp) : Session :=
  ⟨Store.empty config clock, [], [], []⟩

/-- The client makes a request. -/
def submit (s : Session) (r : Request) : Session :=
  { s with frames := [.requests none [r] []], log := [] }

/-- What the client's last request was answered. -/
def lastAnswer (s : Session) : Answer :=
  match s.frames with
  | .requests _ _ (a :: _) :: _ => a
  | _ => .nothing

/-- Carries out a request of the client to the end. -/
def run (s : Session) (r : Request) : Session × Answer :=
  let t := (s.submit r).settle
  (t, t.lastAnswer)

end Session
end ContentOverlay
