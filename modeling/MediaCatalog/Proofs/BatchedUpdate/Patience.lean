import MediaCatalog.Proofs.BatchedUpdate.Polling

/-!
# Patience — how often a trigger asks, and until when

The pause of a trigger is never shorter than the shortest one, in whatever order it is set up
(`Trigger.pause_setUp`). Every question for the state of a run costs such a pause and is sent before
the deadline, so the timeout bounds their number, however long the server takes for its answers and
whatever they tell.
-/

namespace MediaCatalog

namespace BatchedUpdate

open Http (Conversation Dialogue Exchange Server)

/-! ## 1. Setting up a trigger -/

/-- One choice for a trigger. -/
inductive Setting where
  | login (user password : String)
  | pause (duration : Duration)
  | timeout (duration : Duration)

namespace Setting

def apply (t : Trigger) : Setting → Trigger
  | login user password => t.withLogin user password
  | pause duration => t.withPause duration
  | timeout duration => t.withTimeout duration

/-- The pause that is chosen, raised to the shortest if it is shorter. -/
def pause? : Setting → Option Duration
  | pause duration => some (max duration minPause)
  | login _ _ | timeout _ => none

def timeout? : Setting → Option Duration
  | timeout duration => some duration
  | login _ _ | pause _ => none

end Setting

namespace Trigger

/-- The choices are made one after the other. -/
def setUp (t : Trigger) (settings : List Setting) : Trigger :=
  settings.foldl Setting.apply t

/-- Of a field that each choice sets or leaves alone, the last choice counts. -/
theorem setUp_last {α : Type} {field : Trigger → α} {choice : Setting → Option α}
    (h : ∀ t setting, field (Setting.apply t setting) = (choice setting).getD (field t))
    (t : Trigger) (settings : List Setting) :
    field (t.setUp settings) = (settings.filterMap choice).getLast?.getD (field t) := by
  induction settings using List.reverseRecOn with
  | nil => rfl
  | append_singleton settings setting ih =>
    have hlast : t.setUp (settings ++ [setting]) = Setting.apply (t.setUp settings) setting :=
      List.foldl_concat _ _ _ _
    rw [hlast, h, ih, List.filterMap_append]
    cases hchoice : choice setting with
    | none => simp [hchoice]
    | some value => simp [hchoice]

theorem pause_setUp (t : Trigger) (settings : List Setting) :
    (t.setUp settings).pause = (settings.filterMap Setting.pause?).getLast?.getD t.pause := by
  refine setUp_last (fun t setting => ?_) t settings
  cases setting <;> rfl

theorem timeout_setUp (t : Trigger) (settings : List Setting) :
    (t.setUp settings).timeout = (settings.filterMap Setting.timeout?).getLast?.getD t.timeout := by
  refine setUp_last (fun t setting => ?_) t settings
  cases setting <;> rfl

/-- Before any choice the pause is a minute and the timeout five hours. -/
theorem times_ofUrl {url : String} {t : Trigger} (h : ofUrl url = .ok t) :
    t.pause = .ofSeconds 60 ∧ t.timeout = .ofSeconds 18000 := by
  unfold ofUrl at h
  split at h
  next =>
    cases h
    exact ⟨rfl, rfl⟩
  next => cases h

theorem minPause_le_of_choices (settings : List Setting) :
    minPause.milliseconds ≤
      ((settings.filterMap Setting.pause?).getLast?.getD (.ofSeconds 60)).milliseconds := by
  cases hlast : (settings.filterMap Setting.pause?).getLast? with
  | none => decide
  | some duration =>
    obtain ⟨setting, -, hsetting⟩ := List.mem_filterMap.mp (List.mem_of_getLast? hlast)
    cases setting with
    | pause chosen =>
      cases hsetting
      rw [Option.getD_some, Duration.milliseconds_max]
      exact Nat.le_max_right _ _
    | login | timeout => cases hsetting

/-! ## 2. Questions cost time -/

variable {t : Trigger} {server : Server} {deadline : Nat}

/-- The questions that follow an exchange are sent one pause apart or more, up to the deadline. -/
theorem sent_of_isChain {e : Exchange} {rest : List Exchange}
    (h : List.IsChain (t.Continues deadline) (e :: rest))
    (htime : ∀ e' ∈ rest, e'.sent ≤ e'.answered) (i : Nat) (hi : i < rest.length) :
    e.answered + (i + 1) * t.pause ≤ rest[i].sent ∧ rest[i].sent ≤ deadline := by
  induction rest generalizing e i with
  | nil => cases hi
  | cons next rest ih =>
    obtain ⟨⟨status, -, -, hlate, hsent⟩, hchain⟩ := List.isChain_cons_cons.mp h
    obtain ⟨hnext, hrest⟩ := List.forall_mem_cons.mp htime
    cases i with
    | zero =>
      rw [List.getElem_cons_zero, hsent]
      omega
    | succ i =>
      have hlater := ih hchain hrest i (Nat.lt_of_succ_lt_succ hi)
      have hpauses : (i + 1 + 1) * t.pause = (i + 1) * t.pause + t.pause := Nat.succ_mul _ _
      rw [List.getElem_cons_succ]
      omega

/-- No server keeps a trigger waiting for ever. -/
theorem exists_not_continues (hpause : 0 < t.pause.milliseconds) (exchanges : Nat → Exchange)
    (htime : ∀ n, (exchanges n).sent ≤ (exchanges n).answered) :
    ∃ n, ¬t.Continues deadline (exchanges n) (exchanges (n + 1)) := by
  by_contra hnone
  have hall (n : Nat) : t.Continues deadline (exchanges n) (exchanges (n + 1)) :=
    not_not.mp (not_exists.mp hnone n)
  -- Each exchange is answered a pause later than the one before, and the deadline stands still.
  have hclock (n : Nat) : n ≤ (exchanges n).answered := by
    induction n with
    | zero => exact Nat.zero_le _
    | succ n ih =>
      obtain ⟨status, -, -, -, hsent⟩ := hall n
      have hnext := htime (n + 1)
      omega
  obtain ⟨status, -, -, hlate, -⟩ := hall (deadline + 1)
  have hpast := hclock (deadline + 1)
  omega

/-! ## 3. The whole of it -/

/-- What a trigger asks, and when: it starts a run, and asks for its state no more often than there
are pauses in the timeout. -/
structure Patient (t : Trigger) (server : Server) (run : String) (payload : Payload)
    (c : Conversation) (first : Exchange) (gets : List Exchange) (last : Conversation) : Prop where
  /-- These are all the requests, in their order. -/
  dialogue : Dialogue server c (first :: gets) last
  post : first.request = t.startRequest run payload
  methods : ∀ e ∈ gets, e.request.method = "GET"
  count_le : gets.length * t.pause ≤ t.timeout
  /-- The time runs from the answer to the first request. -/
  sent_le : ∀ e ∈ gets, first.answered ≤ e.sent ∧ e.sent ≤ first.answered + t.timeout

theorem exists_patient (t : Trigger) (server : Server) (run : String) (payload : Payload)
    (c : Conversation) : ∃ first gets, t.Patient server run payload c first gets
      (t.startAndAwait server run payload c).1 := by
  obtain ⟨created, gets, -, hpolling⟩ := exists_polling t server run payload c rfl
  have hdialogue := Dialogue.cons (c := c) 0 (t.startRequest run payload) hpolling.dialogue
  have htime := (List.forall_mem_cons.mp hdialogue.sent_le_answered).2
  have hsent := sent_of_isChain hpolling.isChain htime
  refine ⟨.made server (t.startRequest run payload) c, gets, hdialogue, rfl, ?_, ?_, ?_⟩
  · intro e he
    rw [hpolling.requests e he]
    rfl
  · -- The last question is sent after as many pauses as there are questions.
    cases hlength : gets.length with
    | zero =>
      rw [Nat.zero_mul]
      exact Nat.zero_le _
    | succ n =>
      have hlast := hsent n (by omega)
      omega
  · intro e he
    obtain ⟨i, hi, rfl⟩ := List.getElem_of_mem he
    have hquestion := hsent i hi
    omega

/-- A trigger that is made for an address and then set up, in any order and as often as one likes,
has the pause that was chosen last, but at least five milliseconds. Whatever a server answers and
however late, the trigger comes to an end with it: its questions, each of which counts one pause, fit
into the timeout, and none is sent later than the timeout after the answer to the first request. -/
theorem asks_within_timeout (url : String) (settings : List Setting) (made : Trigger)
    (h : ofUrl url = .ok made) :
    (made.setUp settings).pause =
      (settings.filterMap Setting.pause?).getLast?.getD (.ofSeconds 60) ∧
    5 ≤ (made.setUp settings).pause.milliseconds ∧
    (made.setUp settings).timeout =
      (settings.filterMap Setting.timeout?).getLast?.getD (.ofSeconds 18000) ∧
    (∀ server run payload c, ∃ first gets, (made.setUp settings).Patient server run payload c first
      gets ((made.setUp settings).startAndAwait server run payload c).1) ∧
    ∀ deadline (exchanges : Nat → Exchange), (∀ n, (exchanges n).sent ≤ (exchanges n).answered) →
      ∃ n, ¬(made.setUp settings).Continues deadline (exchanges n) (exchanges (n + 1)) := by
  obtain ⟨hpause, htimeout⟩ := times_ofUrl h
  have hchosen := pause_setUp made settings
  rw [hpause] at hchosen
  have hfive : 5 ≤ (made.setUp settings).pause.milliseconds := by
    rw [hchosen]
    exact minPause_le_of_choices settings
  refine ⟨hchosen, hfive, ?_, fun server run payload c => exists_patient _ server run payload c, ?_⟩
  · rw [timeout_setUp, htimeout]
  · intro deadline exchanges htime
    exact exists_not_continues (by omega) exchanges htime

/-- Tells each time that a run goes on, a millisecond after it is asked. -/
def neverDone (run : String) : Server := fun _ =>
  (1, RunStatus.answer ⟨run, .running⟩)

/-- Asks every millisecond, for twelve milliseconds. -/
def hurried : List Setting :=
  [.pause (.ofMilliseconds 1), .timeout (.ofMilliseconds 12)]

/-- A pause of a millisecond is raised to five, of which twelve milliseconds hold two. -/
theorem asks_within_timeout_never_done :
    ofUrl "http://localhost" = .ok { url := "http://localhost" } ∧ ∃ first gets,
      (setUp { url := "http://localhost" } hurried).Patient (neverDone "r") "r"
        ⟨"q", "image", "", "", false⟩ {} first gets
        ((setUp { url := "http://localhost" } hurried).startAndAwait (neverDone "r") "r"
          ⟨"q", "image", "", "", false⟩ {}).1 ∧ gets.length ≤ 2 := by
  have hmade : ofUrl "http://localhost" = .ok { url := "http://localhost" } := rfl
  obtain ⟨hpause, -, htimeout, hpatient, -⟩ := asks_within_timeout _ hurried _ hmade
  obtain ⟨first, gets, h⟩ := hpatient (neverDone "r") "r" ⟨"q", "image", "", "", false⟩ {}
  have hcount := h.count_le
  rw [hpause, htimeout] at hcount
  have hfit : gets.length * 5 ≤ 12 := hcount
  exact ⟨hmade, first, gets, h, by omega⟩

end Trigger

end BatchedUpdate

end MediaCatalog
