import MediaCatalog.BatchedUpdate.Payload
import MediaCatalog.BatchedUpdate.RunState
import MediaCatalog.Http.Exchange
import MediaCatalog.Text.Lossy
import MediaCatalog.Text.Quoted
import MediaCatalog.Time
import MediaCatalog.Workflow.Failure

/-!
Starting a batched update and waiting for its end. One request starts the run; then its state is
asked for after every pause, until it has ended or no pause is left before the deadline. A moment that
the clock cannot tell breaks the program off.
-/

namespace MediaCatalog.BatchedUpdate

/-- The shortest pause. -/
def minPause : Duration := .ofMilliseconds 5

/-- Where and how to start runs. -/
structure Trigger where
  url : String
  login : Option (String × String) := none
  /-- Between two questions for the state. -/
  pause : Duration := .ofSeconds 60
  /-- From the answer that tells of the start to the last question. -/
  timeout : Duration := .ofSeconds 18000
  minPause_le : minPause.milliseconds ≤ pause.milliseconds := by decide

namespace Trigger

/-- The workflow of the orchestrator that does batched updates. -/
def workflow : String := "batched_update"

def ofUrl (url : String) : Except Failure Trigger :=
  match Url.base url with
  | .ok base => .ok { url := base }
  | .error fault => .error (.invalidUrl url fault)

def withLogin (user password : String) (t : Trigger) : Trigger :=
  { t with login := some (user, password) }

/-- A pause below the shortest is raised to it. -/
def withPause (pause : Duration) (t : Trigger) : Trigger :=
  { t with
    pause := max pause minPause
    minPause_le := by
      rw [Duration.milliseconds_max]
      exact Nat.le_max_right _ _ }

def withTimeout (timeout : Duration) (t : Trigger) : Trigger :=
  { t with timeout }

/-! ### Text -/

/-- A time in seconds, with as many decimals as it needs, or in milliseconds below a second. -/
def durationText (milliseconds : Nat) : String :=
  if milliseconds = 0 then "0ns"
  else if milliseconds < 1000 then s!"{milliseconds}ms"
  else
    let rest := milliseconds % 1000
    let digits := [rest / 100, rest / 10 % 10, rest % 10].map Text.hexDigit
    let decimals := (digits.reverse.dropWhile (· == '0')).reverse
    let fraction := if decimals.isEmpty then "" else "." ++ String.ofList decimals
    s!"{milliseconds / 1000}{fraction}s"

/-- The settings in one line. A password is not shown. -/
def text (t : Trigger) : String :=
  let shown (value : Option String) :=
    match value with
    | some v => s!"Some({Text.quoted v})"
    | none => "None"
  let user := shown (t.login.map Prod.fst)
  let password := shown (t.login.map fun _ => "[REDACTED]")
  "RestDagTrigger \x7b " ++ ", ".intercalate [
    s!"api_url: {Text.quoted t.url}", s!"dag_id: {Text.quoted workflow}",
    s!"username: {user}", s!"password: {password}",
    s!"poll_interval: {durationText t.pause}", s!"timeout: {durationText t.timeout}"] ++ " \x7d"

/-! ### Requests -/

def runsUrl (t : Trigger) : String :=
  s!"{t.url}/api/v1/dags/{workflow}/dagRuns"

def authorization (t : Trigger) : List String :=
  (t.login.map fun (user, password) => Http.basicLogin user password).toList

/-- Starts a run under an id of its own. -/
def startRequest (t : Trigger) (run : String) (payload : Payload) : Http.Request :=
  { method := "POST"
    url := t.runsUrl
    authorization := t.authorization
    contentType := some "application/json"
    body := (Json.object [("dag_run_id", .string run), ("conf", payload.json)]).text }

/-- Asks for the state of a run. The id becomes a part of the URL as it is. -/
def stateRequest (t : Trigger) (run : String) : Http.Request :=
  { method := "GET", url := t.runsUrl ++ "/" ++ run, authorization := t.authorization }

def ofReply : Except Http.Fault Http.Reply → Except Failure RunStatus
  | .error fault => .error (.orchestrator fault.message)
  | .ok reply =>
    if Http.isSuccess reply.status then
      match reply.body with
      | .error fault => .error (.orchestrator fault.message)
      | .ok body =>
        match RunStatus.ofBody? body with
        | some s => .ok s
        | none => .error (.orchestrator "error decoding response body")
    else
      let body := reply.body.toOption.getD ByteArray.empty
      .error (.orchestratorResponse reply.status (Text.lossy body))

/-! ### Waiting -/

/-- Waits until a run in some state has ended. The result names the run as it was started; there is
none if the end of a pause is beyond the clock. -/
def await (t : Trigger) (server : Http.Server) (run : String) (deadline : Nat)
    (state : RunState) (c : Http.Conversation) :
    Http.Conversation × Option (Except Failure RunStatus) :=
  if state.isTerminal then
    (c, some (if state = .failed then .error (.batchedUpdateFailed run state.name)
      else .ok ⟨run, state⟩))
  else if clockEnd ≤ c.clock + t.pause then (c, none)
  else if _late : deadline < c.clock + t.pause then
    (c, some (.error (.batchedUpdateTimeout run t.timeout)))
  else
    match _asked : (c.wait t.pause).send server (t.stateRequest run) with
    | (after, reply) =>
      match ofReply reply with
      | .error failure => (after, some (.error failure))
      | .ok status => t.await server run deadline status.state after
termination_by deadline - c.clock
decreasing_by
  have passed := Http.Conversation.clock_le_send server (t.stateRequest run) (c.wait t.pause)
  rw [_asked] at passed
  have pause : 5 ≤ t.pause.milliseconds := t.minPause_le
  simp only [Http.Conversation.wait] at passed
  omega

/-- Starts a run and waits for its end. The deadline counts from the answer to the start; there is no
result if it is beyond the clock. -/
def startAndAwait (t : Trigger) (server : Http.Server) (run : String) (payload : Payload)
    (c : Http.Conversation) : Http.Conversation × Option (Except Failure RunStatus) :=
  match c.send server (t.startRequest run payload) with
  | (c, reply) =>
    match ofReply reply with
    | .error failure => (c, some (.error failure))
    | .ok started =>
      if clockEnd ≤ c.clock + t.timeout then (c, none)
      else t.await server started.run (c.clock + t.timeout) started.state c

/-- The id of a new run, from an id that no other run has. -/
def runId (payload : Payload) (unique : String) : String :=
  payload.queryId ++ "__" ++ unique

end Trigger

end MediaCatalog.BatchedUpdate
