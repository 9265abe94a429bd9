import MediaCatalog.Http.Exchange
import MediaCatalog.Proofs.Url.Segment

/-!
# Dialogues — what is said to a server, and what it hears

A conversation is told by its exchanges (`Dialogue`): what was to be sent, what the server has
received of it, and what came of it. The server receives the requests of the exchanges and no others
(`Dialogue.sent_eq`), each for the URL that its text stands for (`Exchange.received_made`).
-/

namespace MediaCatalog.Http

/-! ## 1. Exchanges -/

theorem Conversation.send_of_target? {server : Server} {request : Request} {u : Url}
    {c : Conversation} (h : request.target? = .ok u) : c.send server request =
      ((c.ask server (request.outgoing u)).1,
        (c.ask server (request.outgoing u)).2.reply? (withoutLogin u).text) := by
  unfold send
  rw [h]

/-- A request with what the server has received of it, what came of it, and the times of both. -/
structure Exchange where
  request : Request
  sent : Nat
  received : Option Request
  reply : Except Fault Reply
  answered : Nat

namespace Exchange

/-- What comes of a request that is made now. What the server receives stands in the conversation. -/
def made (server : Server) (request : Request) (c : Conversation) : Exchange where
  request := request
  sent := c.clock
  received := ((c.send server request).1.sent.drop c.sent.length).head?.map Sent.request
  reply := (c.send server request).2
  answered := (c.send server request).1.clock

/-- What the server has received, and when it was sent. -/
def received? (e : Exchange) : Option Sent :=
  e.received.map (⟨e.sent, ·⟩)

end Exchange

namespace Exchange
variable {server : Server} {request : Request} {c : Conversation}

/-- A request is received for the URL that its text stands for, or it is not received, and then
there is no reply. -/
theorem received_made (server : Server) (request : Request) (c : Conversation) :
    ((made server request c).received = none ∧ (c.send server request).1.sent = c.sent ∧
      ∃ fault, (made server request c).reply = .error fault) ∨
      ∃ u, request.target? = .ok u ∧
        (made server request c).received = some (request.outgoing u) ∧
        (c.send server request).1.sent = c.sent ++ [⟨c.clock, request.outgoing u⟩] := by
  have hsent : ((c.send server request).1.sent = c.sent ∧
      ∃ fault, (c.send server request).2 = .error fault) ∨ ∃ u, request.target? = .ok u ∧
      (c.send server request).1.sent = c.sent ++ [⟨c.clock, request.outgoing u⟩] := by
    unfold Conversation.send
    split
    next fault _ => exact Or.inl ⟨rfl, fault, rfl⟩
    next u htarget =>
      rw [Conversation.ask]
      generalize server (c.sent.map Sent.request ++ [request.outgoing u]) = outcome
      obtain ⟨delay, answer⟩ := outcome
      cases answer with
      | unreachable reason => exact Or.inl ⟨List.append_nil _, _, rfl⟩
      | reply | cut | lost => exact Or.inr ⟨u, htarget, rfl⟩
  rcases hsent with ⟨hsent, hfault⟩ | ⟨u, htarget, hsent⟩
  · refine Or.inl ⟨?_, hsent, hfault⟩
    rw [made, hsent, List.drop_length]
    rfl
  · refine Or.inr ⟨u, htarget, ?_, hsent⟩
    rw [made, hsent, List.drop_left]
    rfl

theorem sent_send (server : Server) (request : Request) (c : Conversation) :
    (c.send server request).1.sent = c.sent ++ (made server request c).received?.toList := by
  rw [received?]
  rcases received_made server request c with ⟨hnone, hsent, -⟩ | ⟨u, -, hsome, hsent⟩
  · rw [hnone, hsent]
    exact (List.append_nil _).symm
  · rw [hsome, hsent]
    rfl

/-- What is answered has been received. -/
theorem isSome_received_of_reply {reply : Reply} (h : (made server request c).reply = .ok reply) :
    (made server request c).received.isSome = true := by
  rcases received_made server request c with ⟨-, -, fault, hfault⟩ | ⟨u, -, hsome, -⟩
  · rw [hfault] at h
    cases h
  · rw [hsome]
    rfl

theorem received?_eq_some {e : Exchange} {sent : Sent} (h : e.received? = some sent) :
    sent.time = e.sent ∧ e.received = some sent.request := by
  obtain ⟨request, hrequest, rfl⟩ := Option.map_eq_some_iff.mp h
  exact ⟨rfl, hrequest⟩

theorem sent_le_answered_made (server : Server) (request : Request) (c : Conversation) :
    (made server request c).sent ≤ (made server request c).answered :=
  Conversation.clock_le_send server request c

end Exchange

/-! ## 2. Dialogues -/

/-- Exchanges one after the other, each after a pause, from one state of a conversation to another. -/
inductive Dialogue (server : Server) : Conversation → List Exchange → Conversation → Prop where
  | nil (c : Conversation) : Dialogue server c [] c
  | cons {c last : Conversation} {exchanges : List Exchange} (pause : Nat) (request : Request)
      (rest : Dialogue server ((c.wait pause).send server request).1 exchanges last) :
    Dialogue server c (.made server request (c.wait pause) :: exchanges) last

namespace Dialogue
variable {server : Server} {c last : Conversation} {exchanges : List Exchange}

/-- Nothing is sent but in the exchanges. -/
theorem sent_eq (h : Dialogue server c exchanges last) :
    last.sent = c.sent ++ exchanges.filterMap Exchange.received? := by
  induction h with
  | nil => simp
  | @cons c last exchanges pause request rest ih =>
    rw [ih, Exchange.sent_send, List.filterMap_cons]
    cases (Exchange.made server request (c.wait pause)).received? with
    | none => simp [Conversation.wait]
    | some sent => simp [Conversation.wait]

/-- No answer comes before its request. -/
theorem sent_le_answered (h : Dialogue server c exchanges last) :
    ∀ e ∈ exchanges, e.sent ≤ e.answered := by
  induction h with
  | nil => simp
  | @cons c last exchanges pause request _ ih =>
    have hfirst := Exchange.sent_le_answered_made server request (c.wait pause)
    exact List.forall_mem_cons.mpr ⟨hfirst, ih⟩

theorem clock_le (h : Dialogue server c exchanges last) : c.clock ≤ last.clock := by
  induction h with
  | nil => exact Nat.le_refl _
  | @cons c last exchanges pause request _ ih =>
    have hwaited : c.clock ≤ (c.wait pause).clock := Nat.le_add_right _ _
    have hsent := Conversation.clock_le_send server request (c.wait pause)
    omega

/-- A conversation goes on until every answer is there. -/
theorem answered_le (h : Dialogue server c exchanges last) :
    ∀ e ∈ exchanges, e.answered ≤ last.clock := by
  induction h with
  | nil => simp
  | cons pause request rest ih => exact List.forall_mem_cons.mpr ⟨rest.clock_le, ih⟩

/-- What is received of an exchange is a request for the URL that its text stands for. -/
theorem goes (h : Dialogue server c exchanges last) : ∀ e ∈ exchanges, ∀ request,
    e.received = some request → ∃ u, e.request.target? = .ok u ∧ request = e.request.outgoing u := by
  induction h with
  | nil => simp
  | @cons c last exchanges pause request _ ih =>
    refine List.forall_mem_cons.mpr ⟨fun received hreceived => ?_, ih⟩
    rcases Exchange.received_made server request (c.wait pause) with
      ⟨hnone, -, -⟩ | ⟨u, htarget, hsome, -⟩
    · rw [hnone] at hreceived
      cases hreceived
    · rw [hsome] at hreceived
      exact ⟨u, htarget, (Option.some.inj hreceived).symm⟩

theorem outgoing (h : Dialogue server c exchanges last) : ∀ e ∈ exchanges, ∀ sent,
    e.received? = some sent → ∃ u, sent.request = e.request.outgoing u := by
  intro e he sent hsent
  obtain ⟨-, hreceived⟩ := Exchange.received?_eq_some hsent
  obtain ⟨u, -, hrequest⟩ := h.goes e he sent.request hreceived
  exact ⟨u, hrequest⟩

end Dialogue

/-! ## 3. Addresses -/

/-- Only what is on the web is asked for anything. -/
theorem Request.target?_eq_ok_iff {r : Request} {u : Url} :
    r.target? = .ok u ↔ Url.parse r.url = .ok u ∧ u.host.isSome = true ∧ Url.IsWeb u.scheme := by
  have hrefused (v : Url) : (v.host.isNone || !(v.scheme == "http" || v.scheme == "https")) = false ↔
      v.host.isSome = true ∧ Url.IsWeb v.scheme := by
    rw [Bool.or_eq_false_iff, Bool.not_eq_false', Bool.or_eq_true, beq_iff_eq, beq_iff_eq,
      Option.isNone_eq_false_iff]
    rfl
  unfold target?
  cases hparse : Url.parse r.url with
  | error fault => simp
  | ok v =>
    dsimp only
    split
    next h =>
      refine ⟨nofun, fun ⟨heq, hkept⟩ => ?_⟩
      rw [← Except.ok.inj heq, ← hrefused, h] at hkept
      cases hkept
    next h =>
      rw [Except.ok.injEq, Except.ok.injEq]
      refine ⟨fun heq => ⟨heq, ?_⟩, And.left⟩
      rw [← heq, ← hrefused]
      exact Bool.eq_false_iff.mpr h

theorem withoutLogin_below (last : List Char) (u : Url) :
    withoutLogin (Url.below last u) = Url.below last (withoutLogin u) := by
  rw [withoutLogin, withoutLogin]
  show (if (login? u).isSome then _ else _) = _
  split <;> rfl

theorem parts_withoutLogin (u : Url) :
    (withoutLogin u).host = u.host ∧ (withoutLogin u).query = u.query := by
  rw [withoutLogin]
  split <;> exact ⟨rfl, rfl⟩

/-- A plain name behind the URL of a request is one more segment of the URL that is asked. -/
theorem outgoing_url_below {r s : Request} {u v : Url} {front middle name last : List Char}
    (htext : r.url.toList = front ++ '/' :: (middle ++ '/' :: name)) (hfront : Url.HasNoTail front)
    (hmiddle : Url.IsPlainSegment middle) (hne : middle ≠ []) (hname : Url.IsPlainSegment name)
    (hlast : Url.IsPlainSegment last) (hbelow : s.url = r.url ++ "/" ++ String.ofList last)
    (hr : r.target? = .ok u) (hs : s.target? = .ok v) :
    (s.outgoing v).url = (r.outgoing u).url ++ "/" ++ String.ofList last := by
  obtain ⟨hparse, hhost, hweb⟩ := Request.target?_eq_ok_iff.mp hr
  obtain ⟨hmore, hquery, -⟩ :=
    Url.parse_append_segment htext hfront hmiddle hne hname hlast hparse hweb
  rw [Request.target?_eq_ok_iff, hbelow, hmore] at hs
  obtain rfl := Except.ok.inj hs.1
  obtain ⟨hhost', hquery'⟩ := parts_withoutLogin u
  rw [Request.outgoing, Request.outgoing, withoutLogin_below]
  exact Url.text_below (u := { withoutLogin u with fragment := none }) (by rw [hhost']; exact hhost)
    (hquery'.trans hquery) rfl last

end MediaCatalog.Http
