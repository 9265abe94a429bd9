import Mathlib.Data.List.Chain
import MediaCatalog.BatchedUpdate.Trigger
import MediaCatalog.Proofs.Http.Dialogue
import MediaCatalog.Proofs.Json.Reading

/-!
# Polling — what a trigger asks of a server, and what it makes of the answers

Each exchange of a trigger leads to the next one (`Trigger.Continues`) or settles what comes of it
(`Trigger.Verdict`), so only the last one does the latter (`Trigger.Polling`). Nothing comes of it if
the clock cannot tell a moment that counts: then the program breaks off. The id of a run becomes text
of a URL, so that a plain id leads to that run, and one that is not plain may lead to another.
-/

namespace MediaCatalog

namespace BatchedUpdate

open Http (Conversation Dialogue Exchange Server)

/-! ## 1. Answers -/

/-- What is told of a run is read as it was meant. -/
theorem RunStatus.ofBody?_json (s : RunStatus) : ofBody? s.json.text.toUTF8 = some s := by
  have hfree : ∀ m ∈ [("dag_run_id", Json.string s.run), ("state", .string s.state.name)],
      m.1 ∈ keys → Json.NumberFree Json.Reader.depthLimit m.2 := by
    simp only [List.forall_mem_cons]
    exact ⟨fun _ => .string _ _, fun _ => .string _ _, by simp⟩
  rw [ofBody?, Json.readBytesFor?, Text.charsOf_toUTF8, json, Json.readFor?_text hfree,
    Option.bind_some]
  show some (RunStatus.mk s.run (RunState.ofName s.state.name)) = some s
  rw [RunState.ofName_name]

/-- Other members need not even be text. -/
example : RunStatus.ofBody? ("\x7b\"dag_run_id\":\"a\",\"state\":\"failed\",\"note\":\"".toUTF8 ++
    ⟨#[0xFF]⟩ ++ "\"\x7d".toUTF8) = some ⟨"a", .failed⟩ := by
  decide +kernel

/-- The answer is a success and tells of a run. -/
def Tells (e : Exchange) (status : RunStatus) : Prop :=
  ∃ url code body, e.reply = .ok ⟨url, code, .ok body⟩ ∧ Http.isSuccess code = true ∧
    RunStatus.ofBody? body = some status

theorem ofReply_eq_ok_iff {e : Exchange} {status : RunStatus} :
    Trigger.ofReply e.reply = .ok status ↔ Tells e status := by
  constructor
  · intro h
    unfold Trigger.ofReply at h
    split at h
    next => cases h
    next reply hreply =>
      split at h
      next hcode =>
        split at h
        next => cases h
        next body hbody =>
          split at h
          next hstatus =>
            cases h
            refine ⟨reply.url, reply.status, body, ?_, hcode, hstatus⟩
            rw [hreply, ← hbody]
          next => cases h
      next => cases h
  · rintro ⟨url, code, body, hreply, hcode, hbody⟩
    simp only [Trigger.ofReply, hreply, if_pos hcode, hbody]

/-- An answer that tells of a run. -/
def RunStatus.answer (s : RunStatus) : Http.Answer :=
  .reply 200 s.json.text.toUTF8

theorem ofReply_answer (s : RunStatus) (address : String) :
    Trigger.ofReply (s.answer.reply? address) = .ok s := by
  simp only [RunStatus.answer, Http.Answer.reply?, Trigger.ofReply, RunStatus.ofBody?_json]
  rfl

/-- A request fails in ways of its own. -/
theorem kind_of_ofReply_eq_error {reply : Except Http.Fault Http.Reply} {failure : Failure}
    (h : Trigger.ofReply reply = .error failure) :
    (∃ reason, failure = .orchestrator reason) ∨
      ∃ status body, failure = .orchestratorResponse status body := by
  unfold Trigger.ofReply at h
  split at h
  next =>
    cases h
    exact Or.inl ⟨_, rfl⟩
  next =>
    split at h
    next =>
      split at h
      next =>
        cases h
        exact Or.inl ⟨_, rfl⟩
      next =>
        split at h
        next => cases h
        next =>
          cases h
          exact Or.inl ⟨_, rfl⟩
    next =>
      cases h
      exact Or.inr ⟨_, _, rfl⟩

theorem Tells.unique {e : Exchange} {status status' : RunStatus} (h : Tells e status)
    (h' : Tells e status') : status = status' := by
  rw [← ofReply_eq_ok_iff] at h h'
  rw [h, Except.ok.injEq] at h'
  exact h'

theorem Tells.ne_error {e : Exchange} {status : RunStatus} (h : Tells e status)
    (failure : Failure) : Trigger.ofReply e.reply ≠ .error failure := by
  rw [ofReply_eq_ok_iff.mpr h]
  exact fun h => by cases h

namespace Trigger
variable {t : Trigger} {server : Server} {run : String} {deadline : Nat}

/-! ## 2. What an exchange leads to -/

/-- What comes of it all, if an exchange settles that: a result, or none if the clock can tell neither
the deadline nor, while the run goes on, the end of the next pause. -/
inductive Verdict (t : Trigger) (run : String) (deadline : Nat) (e : Exchange) :
    Option (Except Failure RunStatus) → Prop where
  | refused {failure : Failure} (reply : ofReply e.reply = .error failure) :
    Verdict t run deadline e (some (.error failure))
  | succeeded {status : RunStatus} (tells : Tells e status) (state : status.state = .success)
      (told : deadline < clockEnd) : Verdict t run deadline e (some (.ok ⟨run, .success⟩))
  | failed {status : RunStatus} (tells : Tells e status) (state : status.state = .failed)
      (told : deadline < clockEnd) :
    Verdict t run deadline e (some (.error (.batchedUpdateFailed run RunState.failed.name)))
  | late {status : RunStatus} (tells : Tells e status)
      (going : status.state.isTerminal = false) (late : deadline < e.answered + t.pause)
      (told : e.answered + t.pause < clockEnd) :
    Verdict t run deadline e (some (.error (.batchedUpdateTimeout run t.timeout)))
  | untold {status : RunStatus} (tells : Tells e status) (beyond : clockEnd ≤ deadline ∨
      status.state.isTerminal = false ∧ clockEnd ≤ e.answered + t.pause) :
    Verdict t run deadline e none

/-- The answer tells of a run that has not ended, there was time for a pause, and the next request
was made after it. -/
def Continues (t : Trigger) (deadline : Nat) (e next : Exchange) : Prop :=
  ∃ status, Tells e status ∧ status.state.isTerminal = false ∧ e.answered + t.pause ≤ deadline ∧
    next.sent = e.answered + t.pause

namespace Verdict
variable {e : Exchange} {result result' : Option (Except Failure RunStatus)}

theorem eq_of_refused {failure : Failure} (h : t.Verdict run deadline e result)
    (hreply : ofReply e.reply = .error failure) : result = some (.error failure) := by
  cases h with
  | refused reply => rw [Except.error.inj (hreply.symm.trans reply)]
  | succeeded tells | failed tells | late tells | untold tells =>
    exact absurd hreply (tells.ne_error _)

/-- What comes of the state that an answer tells of. -/
theorem eq_of_tells {status : RunStatus} (h : t.Verdict run deadline e result)
    (htells : Tells e status) : result =
      if clockEnd ≤ deadline then none
      else if status.state = .success then some (.ok ⟨run, .success⟩)
      else if status.state = .failed then
        some (.error (.batchedUpdateFailed run RunState.failed.name))
      else if clockEnd ≤ e.answered + t.pause then none
      else some (.error (.batchedUpdateTimeout run t.timeout)) := by
  cases h with
  | refused reply => exact absurd reply (htells.ne_error _)
  | succeeded tells state told | failed tells state told =>
    rw [htells.unique tells, state, if_neg (Nat.not_le.mpr told)]
    rfl
  | late tells going late told =>
    rw [← htells.unique tells] at going
    obtain ⟨hsuccess, hfailed⟩ := RunState.ne_of_isTerminal_eq_false going
    rw [if_neg (by omega), if_neg hsuccess, if_neg hfailed, if_neg (by omega)]
  | untold tells beyond =>
    rw [← htells.unique tells] at beyond
    split
    · rfl
    · rcases beyond with h | ⟨going, h⟩
      · contradiction
      · obtain ⟨hsuccess, hfailed⟩ := RunState.ne_of_isTerminal_eq_false going
        rw [if_neg hsuccess, if_neg hfailed, if_pos h]

theorem unique (h : t.Verdict run deadline e result) (h' : t.Verdict run deadline e result') :
    result = result' := by
  cases hreply : ofReply e.reply with
  | error failure => rw [h.eq_of_refused hreply, h'.eq_of_refused hreply]
  | ok status =>
    have htells := ofReply_eq_ok_iff.mp hreply
    rw [h.eq_of_tells htells, h'.eq_of_tells htells]

theorem not_continues {next : Exchange} (h : t.Verdict run deadline e result)
    (told : deadline < clockEnd) : ¬t.Continues deadline e next := by
  rintro ⟨status, htells, hgoing, htime, -⟩
  cases h with
  | refused reply => exact htells.ne_error _ reply
  | succeeded tells state | failed tells state =>
    rw [htells.unique tells, state] at hgoing
    cases hgoing
  | late _ _ late => omega
  | untold _ beyond => rcases beyond with h | ⟨-, h⟩ <;> omega

/-! ### The kinds of results -/

theorem ok_iff {outcome : RunStatus} : t.Verdict run deadline e (some (.ok outcome)) ↔
    (deadline < clockEnd ∧ outcome = ⟨run, .success⟩) ∧
      ∃ status, Tells e status ∧ status.state = .success := by
  constructor
  · intro h
    cases h with
    | succeeded tells state told => exact ⟨⟨told, rfl⟩, _, tells, state⟩
  · rintro ⟨⟨told, rfl⟩, status, htells, hstate⟩
    exact .succeeded htells hstate told

theorem failed_iff {id state : String} :
    t.Verdict run deadline e (some (.error (.batchedUpdateFailed id state))) ↔
      (deadline < clockEnd ∧ id = run ∧ state = RunState.failed.name) ∧
        ∃ status, Tells e status ∧ status.state = .failed := by
  constructor
  · intro h
    cases h with
    | refused reply => rcases kind_of_ofReply_eq_error reply with ⟨_, h⟩ | ⟨_, _, h⟩ <;> cases h
    | failed tells state told => exact ⟨⟨told, rfl, rfl⟩, _, tells, state⟩
  · rintro ⟨⟨told, rfl, rfl⟩, status, htells, hstate⟩
    exact .failed htells hstate told

theorem timeout_iff {id : String} {limit : Nat} :
    t.Verdict run deadline e (some (.error (.batchedUpdateTimeout id limit))) ↔
      (id = run ∧ limit = t.timeout) ∧ ∃ status, Tells e status ∧
        status.state.isTerminal = false ∧ deadline < e.answered + t.pause ∧
        e.answered + t.pause < clockEnd := by
  constructor
  · intro h
    cases h with
    | refused reply => rcases kind_of_ofReply_eq_error reply with ⟨_, h⟩ | ⟨_, _, h⟩ <;> cases h
    | late tells going late told => exact ⟨⟨rfl, rfl⟩, _, tells, going, late, told⟩
  · rintro ⟨⟨rfl, rfl⟩, status, htells, hgoing, hlate, htold⟩
    exact .late htells hgoing hlate htold

theorem untold_iff : t.Verdict run deadline e none ↔ ∃ status, Tells e status ∧
    (clockEnd ≤ deadline ∨ status.state.isTerminal = false ∧ clockEnd ≤ e.answered + t.pause) := by
  constructor
  · intro h
    cases h with
    | untold tells beyond => exact ⟨_, tells, beyond⟩
  · rintro ⟨status, htells, hbeyond⟩
    exact .untold htells hbeyond

theorem request_iff {failure : Failure} : ofReply e.reply = .error failure ↔
    t.Verdict run deadline e (some (.error failure)) ∧
      (∀ id state, failure ≠ .batchedUpdateFailed id state) ∧
      ∀ id limit, failure ≠ .batchedUpdateTimeout id limit := by
  constructor
  · intro h
    refine ⟨.refused h, ?_, ?_⟩ <;> rintro id _ rfl <;>
      rcases kind_of_ofReply_eq_error h with ⟨_, h⟩ | ⟨_, _, h⟩ <;> cases h
  · rintro ⟨hverdict, hfailed, htimeout⟩
    cases hverdict with
    | refused reply => exact reply
    | failed => exact absurd rfl (hfailed _ _)
    | late => exact absurd rfl (htimeout _ _)

end Verdict

/-- From one exchange on, requests for the state of a run until an exchange settles what comes of it.
The clock can tell the deadline as long as they go on. -/
inductive Polling (t : Trigger) (server : Server) (run : String) (deadline : Nat) :
    Exchange → Conversation → List Exchange → Conversation → Option (Except Failure RunStatus) →
      Prop where
  | settled {e : Exchange} {c : Conversation} {result : Option (Except Failure RunStatus)}
      (verdict : t.Verdict run deadline e result) : Polling t server run deadline e c [] c result
  | next {e : Exchange} {c last : Conversation} {exchanges : List Exchange}
      {result : Option (Except Failure RunStatus)} (told : deadline < clockEnd)
      (continues :
        t.Continues deadline e (.made server (t.stateRequest run) (c.wait t.pause)))
      (rest : Polling t server run deadline (.made server (t.stateRequest run) (c.wait t.pause))
        ((c.wait t.pause).send server (t.stateRequest run)).1 exchanges last result) :
    Polling t server run deadline e c
      (.made server (t.stateRequest run) (c.wait t.pause) :: exchanges) last result

/-- What a run in a state that it has ended in comes to. -/
theorem verdict_of_isTerminal {e : Exchange} {status : RunStatus} (htells : Tells e status)
    (hterminal : status.state.isTerminal = true) (told : deadline < clockEnd) :
    t.Verdict run deadline e
      (some (if status.state = .failed then .error (.batchedUpdateFailed run status.state.name)
        else .ok ⟨run, status.state⟩)) := by
  cases hstate : status.state with
  | success => exact .succeeded htells hstate told
  | failed => exact .failed htells hstate told
  | queued | running | unknown => rw [hstate] at hterminal; cases hterminal

theorem continues_made {e : Exchange} {c : Conversation} {status : RunStatus}
    (htells : Tells e status) (hclock : e.answered = c.clock)
    (hgoing : ¬status.state.isTerminal = true) (htime : ¬deadline < c.clock + t.pause)
    (request : Http.Request) :
    t.Continues deadline e (.made server request (c.wait t.pause)) := by
  refine ⟨status, htells, Bool.eq_false_iff.mpr hgoing, ?_, ?_⟩
  · rw [hclock]
    exact Nat.le_of_not_lt htime
  · rw [hclock]
    rfl

/-- To wait for a run is to ask for its state until an exchange settles what comes of it. -/
theorem exists_polling_await {e : Exchange} {c : Conversation} {status : RunStatus}
    (htells : Tells e status) (hclock : e.answered = c.clock) (told : deadline < clockEnd) :
    ∃ exchanges, t.Polling server run deadline e c exchanges
      (t.await server run deadline status.state c).1
      (t.await server run deadline status.state c).2 := by
  generalize hstate : status.state = state
  fun_induction await t server run deadline state c generalizing e status with
  | case1 state c hterminal =>
    subst hstate
    exact ⟨[], .settled (verdict_of_isTerminal htells hterminal told)⟩
  | case2 state c hgoing hbeyond =>
    subst hstate
    rw [← hclock] at hbeyond
    exact ⟨[], .settled (.untold htells (Or.inr ⟨Bool.eq_false_iff.mpr hgoing, hbeyond⟩))⟩
  | case3 state c hgoing hwithin hlate =>
    subst hstate
    rw [← hclock] at hlate hwithin
    exact ⟨[], .settled (.late htells (Bool.eq_false_iff.mpr hgoing) hlate (by omega))⟩
  | case4 state c hgoing hwithin htime after reply hasked failure hreply =>
    subst hstate
    obtain ⟨rfl, rfl⟩ := Prod.ext_iff.mp hasked
    exact ⟨_, .next told (continues_made htells hclock hgoing htime _) (.settled (.refused hreply))⟩
  | case5 state c hgoing hwithin htime after reply hasked next hreply ih =>
    subst hstate
    obtain ⟨rfl, rfl⟩ := Prod.ext_iff.mp hasked
    obtain ⟨exchanges, hrest⟩ :=
      @ih (.made server (t.stateRequest run) (c.wait t.pause)) next (ofReply_eq_ok_iff.mp hreply)
        rfl rfl
    exact ⟨_, .next told (continues_made htells hclock hgoing htime _) hrest⟩

/-- Starting a run is one more exchange before that. The run is the one that the answer names. -/
theorem exists_polling (t : Trigger) (server : Server) (run : String) (payload : Payload)
    (c : Conversation) {first : Exchange}
    (hfirst : first = .made server (t.startRequest run payload) c) :
    ∃ created rest, (∀ status, Tells first status → created = status.run) ∧
      t.Polling server created (first.answered + t.timeout) first
        (c.send server (t.startRequest run payload)).1 rest
        (t.startAndAwait server run payload c).1 (t.startAndAwait server run payload c).2 := by
  have hanswered : first.answered = (c.send server (t.startRequest run payload)).1.clock := by
    rw [hfirst]
    rfl
  have hreply : first.reply = (c.send server (t.startRequest run payload)).2 := by
    rw [hfirst]
    rfl
  unfold startAndAwait
  dsimp only
  rw [← hreply]
  split
  next failure hfailure =>
    refine ⟨run, [], fun status htells => ?_, .settled (.refused hfailure)⟩
    rw [← ofReply_eq_ok_iff, hfailure] at htells
    cases htells
  next started hstarted =>
    have htells := ofReply_eq_ok_iff.mp hstarted
    have hnamed : ∀ status, Tells first status → started.run = status.run :=
      fun status hstatus => congrArg _ (htells.unique hstatus)
    rw [← hanswered]
    split
    next hbeyond => exact ⟨started.run, [], hnamed, .settled (.untold htells (Or.inl hbeyond))⟩
    next hwithin =>
      obtain ⟨rest, hpolling⟩ :=
        exists_polling_await htells hanswered (Nat.lt_of_not_le hwithin)
      exact ⟨started.run, rest, hnamed, hpolling⟩

namespace Polling
variable {e : Exchange} {c last : Conversation} {exchanges : List Exchange}
  {result : Option (Except Failure RunStatus)}

theorem dialogue (h : t.Polling server run deadline e c exchanges last result) :
    Dialogue server c exchanges last := by
  induction h with
  | settled => exact .nil _
  | next _ _ _ ih => exact .cons t.pause (t.stateRequest run) ih

theorem requests (h : t.Polling server run deadline e c exchanges last result) :
    ∀ e' ∈ exchanges, e'.request = t.stateRequest run := by
  induction h with
  | settled => simp
  | next _ _ _ ih => exact List.forall_mem_cons.mpr ⟨rfl, ih⟩

/-- Only the last answer settles the result. -/
theorem isChain (h : t.Polling server run deadline e c exchanges last result) :
    List.IsChain (t.Continues deadline) (e :: exchanges) := by
  induction h with
  | settled => exact .singleton _
  | next _ continues _ ih => exact ih.cons_cons continues

/-- A server leaves a trigger no choice. -/
theorem unique (h : t.Polling server run deadline e c exchanges last result)
    {exchanges' : List Exchange} {last' : Conversation} {result' : Option (Except Failure RunStatus)}
    (h' : t.Polling server run deadline e c exchanges' last' result') :
    last = last' ∧ result = result' := by
  induction h generalizing exchanges' with
  | settled verdict =>
    cases h' with
    | settled verdict' => exact ⟨rfl, verdict.unique verdict'⟩
    | next told continues => exact absurd continues (verdict.not_continues told)
  | next told continues _ ih =>
    cases h' with
    | settled verdict' => exact absurd continues (verdict'.not_continues told)
    | next _ _ rest' => exact ih rest'

/-- There is a second exchange only if the first answer has named a run. -/
theorem tells_of_mem (h : t.Polling server run deadline e c exchanges last result) {e' : Exchange}
    (he : e' ∈ exchanges) : ∃ created, Tells e created := by
  cases h with
  | settled => cases he
  | next _ continues =>
    obtain ⟨created, hcreated, -⟩ := continues
    exact ⟨created, hcreated⟩

theorem exists_tells (h : t.Polling server run deadline e c exchanges last result) {e' : Exchange}
    (he : e' ∈ e :: exchanges) {status : RunStatus} (htells : Tells e' status) :
    ∃ created, Tells e created := by
  rcases List.mem_cons.mp he with rfl | he
  · exact ⟨status, htells⟩
  · exact h.tells_of_mem he

/-- What is said of an answer and of the run may name the run as the first answer does. -/
theorem exists_iff (h : t.Polling server run deadline e c exchanges last result)
    (hrun : ∀ status, Tells e status → run = status.run) (named : String → Prop)
    (shown : Exchange → RunStatus → Prop) :
    (∃ e' ∈ e :: exchanges, named run ∧ ∃ status, Tells e' status ∧ shown e' status) ↔
      ∃ created, Tells e created ∧ named created.run ∧
        ∃ e' ∈ e :: exchanges, ∃ status, Tells e' status ∧ shown e' status := by
  constructor
  · rintro ⟨e', he, hnamed, status, htells, hshown⟩
    obtain ⟨created, hcreated⟩ := h.exists_tells he htells
    rw [hrun created hcreated] at hnamed
    exact ⟨created, hcreated, hnamed, e', he, status, htells, hshown⟩
  · rintro ⟨created, hcreated, hnamed, e', he, hstatus⟩
    rw [← hrun created hcreated] at hnamed
    exact ⟨e', he, hnamed, hstatus⟩

/-- What comes of it all is the verdict of the only exchange that has one. -/
theorem eq_iff (h : t.Polling server run deadline e c exchanges last result)
    (result' : Option (Except Failure RunStatus)) :
    result = result' ↔ ∃ e' ∈ e :: exchanges, t.Verdict run deadline e' result' := by
  induction h with
  | @settled e c result verdict =>
    constructor
    · rintro rfl
      exact ⟨e, List.mem_cons_self, verdict⟩
    · rintro ⟨e', he, hverdict⟩
      rw [List.mem_singleton.mp he] at hverdict
      exact verdict.unique hverdict
  | next told continues _ ih =>
    rw [ih]
    constructor
    · rintro ⟨e', he, hverdict⟩
      exact ⟨e', List.mem_cons_of_mem _ he, hverdict⟩
    · rintro ⟨e', he, hverdict⟩
      rcases List.mem_cons.mp he with rfl | he
      · exact absurd continues (hverdict.not_continues told)
      · exact ⟨e', he, hverdict⟩

end Polling

/-! ## 3. Addresses of runs -/

theorem toList_runsUrl (t : Trigger) : t.runsUrl.toList =
    (t.url.toList ++ "/api/v1/dags".toList) ++ '/' :: (workflow.toList ++ '/' :: "dagRuns".toList) := by
  have htext : t.runsUrl = t.url ++ "/api/v1/dags/" ++ workflow ++ "/dagRuns" := rfl
  rw [htext]
  simp [String.toList_append]

theorem isPlainSegment_workflow : Url.IsPlainSegment workflow.toList :=
  ⟨by simp [workflow, Url.IsPlainChar], by decide, by decide⟩

theorem isPlainSegment_dagRuns : Url.IsPlainSegment "dagRuns".toList :=
  ⟨by simp [Url.IsPlainChar], by decide, by decide⟩

/-- The state of a run with a plain id is asked for under the address of the runs and its id. -/
theorem outgoing_stateRequest {t : Trigger} {run : String} {request : Http.Request} {u v : Url}
    (hrun : Url.IsPlainSegment run.toList) (hurl : Url.HasNoTail t.url.toList)
    (hrequest : request.url = t.runsUrl) (hstart : request.target? = .ok u)
    (hstate : (t.stateRequest run).target? = .ok v) :
    ((t.stateRequest run).outgoing v).url = (request.outgoing u).url ++ "/" ++ run := by
  have hfront : Url.HasNoTail (t.url.toList ++ "/api/v1/dags".toList) := by
    simpa [Url.HasNoTail] using hurl
  have htext := t.toList_runsUrl
  rw [← hrequest] at htext
  have hbelow : (t.stateRequest run).url = request.url ++ "/" ++ String.ofList run.toList := by
    rw [hrequest, String.ofList_toList]
    rfl
  rw [Http.outgoing_url_below htext hfront isPlainSegment_workflow (by decide)
    isPlainSegment_dagRuns hrun hbelow hstart hstate, String.ofList_toList]

/-! ## 4. The whole of it -/

/-- How a run is started and waited for, by the exchanges that are made. -/
structure Polled (t : Trigger) (server : Server) (run : String) (payload : Payload)
    (c : Conversation) (first : Exchange) (rest : List Exchange) (last : Conversation)
    (result : Option (Except Failure RunStatus)) : Prop where
  /-- The exchanges are all that is said, and the server receives their requests and no others. -/
  dialogue : Dialogue server c (first :: rest) last
  received : last.sent = c.sent ++ (first :: rest).filterMap Exchange.received?
  /-- Each is received for the URL that its text stands for. -/
  goes : ∀ e ∈ first :: rest, ∀ request, e.received = some request →
    ∃ u, e.request.target? = .ok u ∧ request = e.request.outgoing u
  /-- The first request is made at once and starts the run; no other does. -/
  post : first.request = t.startRequest run payload ∧ first.sent = c.clock ∧
    (first :: rest).filter (·.request.method == "POST") = [first]
  /-- The others have the id of the run that the first answer has named in the text of their URL. -/
  gets : ∀ e ∈ rest, e.request.method = "GET" ∧
    ∃ created, Tells first created ∧ e.request = t.stateRequest created.run
  /-- If that id is plain, then this is the run that they ask for. -/
  asks : ∀ created, Tells first created → Url.IsPlainSegment created.run.toList →
    Url.HasNoTail t.url.toList → ∃ start, first.received = some start ∧
      ∀ e ∈ rest, ∀ request, e.received = some request →
        request.url = start.url ++ "/" ++ created.run
  /-- Each follows an answer that tells of a run which has not ended, one pause later. -/
  chain : List.IsChain (t.Continues (first.answered + t.timeout)) (first :: rest)
  ok_iff : ∀ outcome, result = some (.ok outcome) ↔
    ∃ created, Tells first created ∧ first.answered + t.timeout < clockEnd ∧
      outcome = ⟨created.run, .success⟩ ∧
      ∃ e ∈ first :: rest, ∃ status, Tells e status ∧ status.state = .success
  failed_iff : ∀ id state, result = some (.error (.batchedUpdateFailed id state)) ↔
    ∃ created, Tells first created ∧ first.answered + t.timeout < clockEnd ∧
      id = created.run ∧ state = RunState.failed.name ∧
      ∃ e ∈ first :: rest, ∃ status, Tells e status ∧ status.state = .failed
  timeout_iff : ∀ id limit, result = some (.error (.batchedUpdateTimeout id limit)) ↔
    ∃ created, Tells first created ∧ id = created.run ∧ limit = t.timeout ∧
      ∃ e ∈ first :: rest, ∃ status, Tells e status ∧ status.state.isTerminal = false ∧
        first.answered + t.timeout < e.answered + t.pause ∧ e.answered + t.pause < clockEnd
  /-- The program breaks off where the clock cannot tell the deadline or the end of a pause. -/
  none_iff : result = none ↔ (∃ created, Tells first created) ∧
    (clockEnd ≤ first.answered + t.timeout ∨ ∃ e ∈ first :: rest, ∃ status, Tells e status ∧
      status.state.isTerminal = false ∧ clockEnd ≤ e.answered + t.pause)
  /-- What is not one of these is the failure of a request, and that is always the result. -/
  request_iff : ∀ failure, (∃ e ∈ first :: rest, ofReply e.reply = .error failure) ↔
    result = some (.error failure) ∧ (∀ id state, failure ≠ .batchedUpdateFailed id state) ∧
      ∀ id limit, failure ≠ .batchedUpdateTimeout id limit

/-- Whatever a server answers and however long it takes, a trigger starts one run and puts the id
that the server gives it behind the address of the runs, to ask for the state after each pause, until
an answer settles the result or the clock cannot tell a moment. -/
theorem startAndAwait_polled (t : Trigger) (server : Server) (run : String) (payload : Payload)
    (c : Conversation) : ∃ first rest, t.Polled server run payload c first rest
      (t.startAndAwait server run payload c).1 (t.startAndAwait server run payload c).2 := by
  obtain ⟨created, rest, hcreated, hpolling⟩ := exists_polling t server run payload c rfl
  generalize hfirst : Exchange.made server (t.startRequest run payload) c = first
    at hcreated hpolling
  have hrequest : first.request = t.startRequest run payload := by
    rw [← hfirst]
    rfl
  have hdialogue : Dialogue server c (first :: rest) (t.startAndAwait server run payload c).1 := by
    rw [← hfirst]
    exact .cons 0 (t.startRequest run payload) hpolling.dialogue
  refine ⟨first, rest, hdialogue, hdialogue.sent_eq, hdialogue.goes, ⟨hrequest, ?_, ?_⟩, ?_, ?_,
    hpolling.isChain, ?_, ?_, ?_, ?_, ?_⟩
  · rw [← hfirst]
    rfl
  · have hrest : rest.filter (·.request.method == "POST") = [] := by
      refine List.filter_eq_nil_iff.mpr fun e he => ?_
      rw [hpolling.requests e he]
      show ¬("GET" == "POST") = true
      decide
    rw [List.filter_cons_of_pos (by rw [hrequest]; rfl), hrest]
  · intro e he
    obtain ⟨started, hstarted⟩ := hpolling.tells_of_mem he
    rw [hpolling.requests e he, hcreated started hstarted]
    exact ⟨rfl, started, hstarted, rfl⟩
  · intro started hstarted hplain hurl
    obtain ⟨start, hstart⟩ : ∃ start, first.received = some start := by
      obtain ⟨url, code, body, hreply, -⟩ := hstarted
      rw [← hfirst] at hreply ⊢
      exact Option.isSome_iff_exists.mp (Exchange.isSome_received_of_reply hreply)
    refine ⟨start, hstart, fun e he request hreceived => ?_⟩
    obtain ⟨u, hu, rfl⟩ := hdialogue.goes first List.mem_cons_self start hstart
    obtain ⟨v, hv, rfl⟩ := hdialogue.goes e (List.mem_cons_of_mem _ he) request hreceived
    rw [hpolling.requests e he, hcreated started hstarted] at hv ⊢
    exact outgoing_stateRequest hplain hurl (by rw [hrequest]; rfl) hu hv
  · intro outcome
    rw [hpolling.eq_iff]
    simpa only [Verdict.ok_iff, and_assoc] using
      hpolling.exists_iff hcreated
        (fun run => first.answered + t.timeout < clockEnd ∧ outcome = ⟨run, .success⟩)
        fun _ status => status.state = .success
  · intro id state
    rw [hpolling.eq_iff]
    simpa only [Verdict.failed_iff, and_assoc] using
      hpolling.exists_iff hcreated (fun run => first.answered + t.timeout < clockEnd ∧ id = run ∧
          state = RunState.failed.name)
        fun _ status => status.state = .failed
  · intro id limit
    rw [hpolling.eq_iff]
    simpa only [Verdict.timeout_iff, and_assoc] using
      hpolling.exists_iff hcreated (fun run => id = run ∧ limit = t.timeout) fun e status =>
        status.state.isTerminal = false ∧ first.answered + t.timeout < e.answered + t.pause ∧
          e.answered + t.pause < clockEnd
  · rw [hpolling.eq_iff]
    simp only [Verdict.untold_iff]
    constructor
    · rintro ⟨e, he, status, htells, hbeyond⟩
      refine ⟨hpolling.exists_tells he htells, ?_⟩
      rcases hbeyond with hdeadline | hpause
      · exact Or.inl hdeadline
      · exact Or.inr ⟨e, he, status, htells, hpause⟩
    · rintro ⟨⟨started, hstarted⟩, hdeadline | ⟨e, he, status, htells, hpause⟩⟩
      · exact ⟨first, List.mem_cons_self, started, hstarted, Or.inl hdeadline⟩
      · exact ⟨e, he, status, htells, Or.inr hpause⟩
  · intro failure
    rw [hpolling.eq_iff]
    constructor
    · rintro ⟨e, he, hfails⟩
      obtain ⟨hverdict, hkinds⟩ := Verdict.request_iff.mp hfails
      exact ⟨⟨e, he, hverdict⟩, hkinds⟩
    · rintro ⟨⟨e, he, hverdict⟩, hkinds⟩
      exact ⟨e, he, Verdict.request_iff.mpr ⟨hverdict, hkinds⟩⟩

/-! ## 5. A run with an id that is not plain -/

theorem startAndAwait_of_ok {payload : Payload} {c after : Conversation}
    {reply : Except Http.Fault Http.Reply} {started : RunStatus}
    (hsend : c.send server (t.startRequest run payload) = (after, reply))
    (hreply : ofReply reply = .ok started) (htold : after.clock + t.timeout < clockEnd) :
    t.startAndAwait server run payload c =
      t.await server started.run (after.clock + t.timeout) started.state after := by
  rw [startAndAwait, hsend]
  dsimp only
  rw [hreply]
  exact if_neg (Nat.not_le.mpr htold)

theorem await_of_ok {state : RunState} {c after : Conversation}
    {reply : Except Http.Fault Http.Reply} {status : RunStatus} (hgoing : state.isTerminal = false)
    (htime : c.clock + t.pause ≤ deadline) (htold : deadline < clockEnd)
    (hsend : (c.wait t.pause).send server (t.stateRequest run) = (after, reply))
    (hreply : ofReply reply = .ok status) :
    t.await server run deadline state c = t.await server run deadline status.state after := by
  rw [await, if_neg (Bool.eq_false_iff.mp hgoing), if_neg (by omega), dif_neg (by omega), hsend]
  dsimp only
  rw [hreply]

/-- Starts a run whose id has a hash in it, and which goes on. It knows of a run that has the part
before the hash for its id, and that one has succeeded. -/
def twoRuns : Server := fun requests =>
  (1, if requests.getLast?.any (·.url == "http://localhost/api/v1/dags/batched_update/dagRuns/a")
    then RunStatus.answer ⟨"a", .success⟩ else RunStatus.answer ⟨"a#b", .running⟩)

/-- The run that is asked for need not be the one that was started: what stands behind a hash in an id
does not go out, so that the success of another run counts. -/
theorem startAndAwait_takes_other_run :
    let t := Trigger.withPause minPause { url := "http://localhost" }
    let (last, result) := t.startAndAwait twoRuns "r" ⟨"q", "image", "", "", false⟩ {}
    last.sent.map (fun sent => (sent.request.method, sent.request.url)) =
        [("POST", "http://localhost/api/v1/dags/batched_update/dagRuns"),
          ("GET", "http://localhost/api/v1/dags/batched_update/dagRuns/a")] ∧
      result = some (.ok ⟨"a#b", .success⟩) := by
  intro t
  -- The URLs are read first. What else there is to compute is then rewritten step by step.
  have hstart : (t.startRequest "r" ⟨"q", "image", "", "", false⟩).target? = .ok
      ⟨"http", "", "", some (.domain "localhost"), none, "/api/v1/dags/batched_update/dagRuns",
        none, none⟩ := by
    decide +kernel
  have hstate : (t.stateRequest "a#b").target? = .ok
      ⟨"http", "", "", some (.domain "localhost"), none, "/api/v1/dags/batched_update/dagRuns/a",
        none, some "b"⟩ := by
    decide +kernel
  obtain ⟨start, hshown, hstarted⟩ : ∃ start : Http.Request, (start.method, start.url) =
        ("POST", "http://localhost/api/v1/dags/batched_update/dagRuns") ∧
      Conversation.send twoRuns (t.startRequest "r" ⟨"q", "image", "", "", false⟩) {} =
        (⟨1, [⟨0, start⟩]⟩, (RunStatus.answer ⟨"a#b", .running⟩).reply? start.url) :=
    ⟨_, rfl, by rw [Conversation.send_of_target? hstart]; rfl⟩
  obtain ⟨ask, hshown', hasked⟩ : ∃ ask : Http.Request, (ask.method, ask.url) =
        ("GET", "http://localhost/api/v1/dags/batched_update/dagRuns/a") ∧
      Conversation.send twoRuns (t.stateRequest "a#b")
          (Conversation.wait t.pause ⟨1, [⟨0, start⟩]⟩) =
        (⟨7, [⟨0, start⟩, ⟨6, ask⟩]⟩,
          (RunStatus.answer ⟨"a", .success⟩).reply? (ask.url ++ "#b")) :=
    ⟨_, rfl, by rw [Conversation.send_of_target? hstate]; rfl⟩
  have htold : 1 + t.timeout.milliseconds < clockEnd := by decide
  have htime : 1 + t.pause.milliseconds ≤ 1 + t.timeout.milliseconds := by decide
  have hsuccess : t.await twoRuns "a#b" (1 + t.timeout) .success
      ⟨7, [⟨0, start⟩, ⟨6, ask⟩]⟩ =
        (⟨7, [⟨0, start⟩, ⟨6, ask⟩]⟩, some (.ok ⟨"a#b", .success⟩)) := by
    rw [await]
    exact if_pos rfl
  have hall : t.startAndAwait twoRuns "r" ⟨"q", "image", "", "", false⟩ {} =
      (⟨7, [⟨0, start⟩, ⟨6, ask⟩]⟩, some (.ok ⟨"a#b", .success⟩)) := by
    rw [startAndAwait_of_ok hstarted (ofReply_answer _ _) htold,
      await_of_ok rfl htime htold hasked (ofReply_answer _ _)]
    exact hsuccess
  rw [hall]
  refine ⟨?_, rfl⟩
  show [(start.method, start.url), (ask.method, ask.url)] = _
  rw [hshown, hshown']

end Trigger

end BatchedUpdate

end MediaCatalog
