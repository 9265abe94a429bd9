import MediaCatalog.Http.Request

/-!
Conversations with a server. A request is sent once, and its answer is the last one: a redirection is
followed on the way and is part of what the server does before it answers. Times are in milliseconds.
-/

namespace MediaCatalog.Http

/-- What comes of a request that goes out. A body need not be text. -/
inductive Answer where
  | reply (status : Nat) (body : ByteArray)
  /-- The status comes, but the body breaks off. -/
  | cut (status : Nat) (reason : String)
  /-- The request is received, but its answer does not come. -/
  | lost (reason : String)
  /-- No connection comes about, so that nothing is received. -/
  | unreachable (reason : String)

/-- Whether the server has received the request. -/
def Answer.isReceived : Answer → Bool
  | .reply _ _ | .cut _ _ | .lost _ => true
  | .unreachable _ => false

/-- An answer as far as it has come, and the address that was asked. -/
structure Reply where
  url : String
  status : Nat
  body : Except Fault ByteArray

/-- What the sender of a request to an address is told. -/
def Answer.reply? (address : String) : Answer → Except Fault Reply
  | .reply status body => .ok ⟨address, status, .ok body⟩
  | .cut status reason => .ok ⟨address, status, .error (.brokenBody [reason])⟩
  | .lost reason | .unreachable reason => .error (.unanswered address [reason])

/-- Whether a status tells of success. -/
def isSuccess (status : Nat) : Bool :=
  200 ≤ status && status < 300

/-- Whether a status tells of an error. -/
def isError (status : Nat) : Bool :=
  400 ≤ status && status < 600

/-- Answers the last of the requests so far, after so many milliseconds. -/
abbrev Server := List Request → Nat × Answer

/-- A server that no connection reaches. -/
def Server.unreachable (reason : String) : Server := fun _ => (0, .unreachable reason)

/-- A request and when it was sent. -/
structure Sent where
  time : Nat
  request : Request
  deriving DecidableEq, Repr

/-- What the server has received, and the time that it is. -/
structure Conversation where
  clock : Nat := 0
  sent : List Sent := []
  deriving DecidableEq, Repr

namespace Conversation

/--
Lets a request go out and waits for what comes of it. One sending is one request: a redirection that
is followed does not count as another.
-/
def ask (server : Server) (request : Request) (c : Conversation) : Conversation × Answer :=
  let (delay, answer) := server (c.sent.map Sent.request ++ [request])
  (⟨c.clock + delay, c.sent ++ if answer.isReceived then [⟨c.clock, request⟩] else []⟩, answer)

/-- Sends a request. Without a URL that can be asked nothing goes out. -/
-- To read a URL is long: what is proved by unfolding shall not get into it.
@[irreducible] def send (server : Server) (request : Request) (c : Conversation) :
    Conversation × Except Fault Reply :=
  match request.target? with
  | .error fault => (c, .error fault)
  | .ok u =>
    let (after, answer) := c.ask server (request.outgoing u)
    (after, answer.reply? (withoutLogin u).text)

theorem clock_le_send (server : Server) (request : Request) (c : Conversation) :
    c.clock ≤ (c.send server request).1.clock := by
  unfold send
  split
  next => exact Nat.le_refl _
  next => exact Nat.le_add_right _ _

def wait (milliseconds : Nat) (c : Conversation) : Conversation :=
  { c with clock := c.clock + milliseconds }

end Conversation

end MediaCatalog.Http
