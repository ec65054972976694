import ZeromqAgent.RequestLoop
import ZeromqAgent.Theory.Replies

/-!
# The reply loops

`req_rep_server` and `req_rep_worker` of the test program: in each
iteration a server, or a client with a REP socket, receives and then sends
the reply. When the receive fails the loop goes on with the next
iteration; it does not look at the status of the reply. The REP socket
rejects a receive while a request is unanswered, and a receive waits while
none is there. An exception of the receive ends the program.
-/

namespace ZeromqAgent

namespace ReplyLoop

open Replies Transition

def reply : String := "\x7b'status' : 'ok'\x7d"

def replyBytes : Bytes := reply.toUTF8.data.toList

/-- How the calls of an iteration turn out where the state of the socket
lets them, where a received message is put, and the block that `new`
allocates for the reply. -/
structure Iteration where
  init : Option Errno
  recv : Except Errno Addr
  block : Addr
  last : UInt8
  send : SendCalls

structure Loop where
  impl : Impl
  heap : Heap
  desk : Desk Bytes

inductive Action where
  | arrive (request : Bytes)
  | iterate (it : Iteration)

def Loop.start (c : Impl) (heap : Heap) : Loop := ⟨c, heap, .start⟩

/-- The calls of the receive with the socket after them, unless it waits. -/
def Iteration.receive (it : Iteration) (desk : Desk Bytes) : Option (ReceiveCalls × Desk Bytes) :=
  match it.init with
  | some e => some (⟨some e, .error e⟩, desk)
  | none =>
      if desk.unanswered.isSome then some (⟨none, .error RequestLoop.efsm⟩, desk)
      else
        match it.recv with
        | .error e => some (⟨none, .error e⟩, desk)
        | .ok a => desk.receive.map fun p => (⟨none, .ok (a, p.1)⟩, p.2)

variable (strerror : Errno → String)

/-- `Server::publish` in the server's loop, `Client::send` in the worker's. -/
def send (role : Role) (c : Impl) (heap : Heap) (message : SendMessage) (r : SendCalls) :
    Status × Impl :=
  match role with
  | .client => ClientImpl.send strerror c message r
  | .server => ServerImpl.publish strerror c heap message r.send

/-- The second half of an iteration, with a message received. -/
def Loop.answer (role : Role) (s : Loop) (it : Iteration) : Option Loop :=
  if it.block ≠ 0 ∧ s.heap it.block = none then
    (SendMessage.ofString s.heap it.block it.last replyBytes).map fun (message, heap) =>
      let (status, c) := send strerror role s.impl heap message it.send
      { impl := c
        heap := message.destroy heap
        desk := if status.error = .ok then s.desk.reply else s.desk }
  else none

def iterate (role : Role) (s : Loop) (it : Iteration) : Option Loop :=
  (it.receive s.desk).bind fun (r, desk) =>
    if r.placed s.heap then
      match role.receive strerror s.impl s.heap r with
      | (.error _, _, _) => none
      | (.ok none, c, heap) => some ⟨c, heap, desk⟩
      | (.ok (some _), c, heap) => Loop.answer strerror role ⟨c, heap, desk⟩ it
    else none

def step (role : Role) (s : Loop) : Action → Option Loop
  | .arrive request => some { s with desk := s.desk.arrive request }
  | .iterate it => iterate strerror role s it

/-- The exit code and the object as the loop leaves it, if it is entered. -/
def serve (role : Role) (opened : ErrorType × Impl) (heap : Heap) (as : List Action) :
    Option (ℤ × Option Loop) :=
  match opened with
  | (.notOk, _) => some (-1, none)
  | (.ok, c) => (run (step strerror role) (.start c heap) as).map fun s => (0, some s)

def reqRepServer (junkSocket : Handle) (junkAllocated : Bool) (endPoint : String)
    (calls : BindCalls) (heap : Heap) (as : List Action) : Option (ℤ × Option Loop) :=
  serve strerror .server
    (ServerImpl.bind strerror (.start .reply junkSocket junkAllocated) endPoint calls) heap as

def reqRepWorker (junkSocket : Handle) (junkAllocated : Bool) (endPoint : String)
    (calls : ConnectCalls) (heap : Heap) (as : List Action) : Option (ℤ × Option Loop) :=
  serve strerror .client
    (ClientImpl.connect strerror (.start .reply junkSocket junkAllocated) endPoint calls) heap as

/-- The program of a role, with the calls that open its socket. -/
def program (role : Role) (junkSocket : Handle) (junkAllocated : Bool) (endPoint : String)
    (connect : ConnectCalls) (bind : BindCalls) (heap : Heap) (as : List Action) :
    Option (ℤ × Option Loop) :=
  match role with
  | .client => reqRepWorker strerror junkSocket junkAllocated endPoint connect heap as
  | .server => reqRepServer strerror junkSocket junkAllocated endPoint bind heap as

/-! ## What an iteration does -/

/-- The reply is accepted, if a request was received. -/
def Iteration.Replies (role : Role) (it : Iteration) : Prop :=
  match role with
  | .client => it.send.errno = none
  | .server => it.send.send = none

/-- What a reply made in a block leaves in the queue of the socket. -/
def entry (role : Role) (a : Addr) : Entry :=
  match role with
  | .client => .borrowed a replyBytes.length
  | .server => .copied replyBytes

theorem length_replyBytes : replyBytes.length = 17 := by decide

/-- What the constructor makes of the reply. -/
theorem ofString_reply (heap : Heap) (a : Addr) (last : UInt8) :
    SendMessage.ofString heap a last replyBytes =
      some (⟨17, a, true⟩, Storage.put heap a (replyBytes ++ [last])) := by
  have hint : toInt replyBytes.length = 17 := by rw [length_replyBytes]; rfl
  have htake : replyBytes.take (17 : ℤ).toNat = replyBytes :=
    List.take_of_length_le (by rw [length_replyBytes]; decide)
  rw [SendMessage.ofString_eq_some, hint, htake]
  exact ⟨by decide, rfl⟩

theorem send_reply (role : Role) (c : Impl) (heap : Heap) (a : Addr) (last : UInt8)
    (it : Iteration) :
    let sent :=
      send strerror role c (Storage.put heap a (replyBytes ++ [last])) ⟨17, a, true⟩ it.send
    sent.2.type = c.type ∧ (sent.1.error = .ok ↔ it.Replies role) ∧
      sent.2.queue = if sent.1.error = .ok then c.queue ++ [entry role a] else c.queue := by
  cases role with
  | client =>
      refine ⟨?_, ?_, sendWorker_queue strerror c ⟨17, a, true⟩ .none it.send⟩
      · rcases it.send with ⟨_ | e, _ | e⟩ <;> rfl
      · obtain ⟨_, _, _, _, _ | e, _ | e⟩ := it <;>
          simp [send, ClientImpl.send, ClientImpl.sendWorker, Iteration.Replies, SendCalls.errno,
            Status.init]
  | server =>
      refine ⟨?_, ?_, ?_⟩
      · rcases it.send with ⟨_, _ | e⟩ <;> rfl
      · obtain ⟨_, _, _, _, _, _ | e⟩ := it <;>
          simp [send, ServerImpl.publish, ServerImpl.publishWorker, Iteration.Replies, Status.init]
      · have hbytes : SendMessage.bytes ⟨17, a, true⟩
            (Storage.put heap a (replyBytes ++ [last])) = some replyBytes := by
          have hread : Storage.read (Storage.put heap a (replyBytes ++ [last])) a
              replyBytes.length = some replyBytes := by simp [Storage.read, Storage.put]
          rwa [length_replyBytes] at hread
        have hqueue := publishWorker_queue strerror c (Storage.put heap a (replyBytes ++ [last]))
          ⟨17, a, true⟩ .none it.send.send
        rw [hbytes] at hqueue
        exact hqueue

/-- The receive is called, does not fail and is not rejected. -/
def Iteration.Receives (it : Iteration) : Prop := it.init = none ∧ it.recv.isOk = true

theorem receive_cases {it : Iteration} {desk desk' : Desk Bytes} {r : ReceiveCalls}
    (h : it.receive desk = some (r, desk')) :
    (r.errno.isNone = false ∧ desk' = desk ∧ ¬ (desk.unanswered = none ∧ it.Receives)) ∨
      it.Receives ∧ ∃ a m, r = ⟨none, .ok (a, m)⟩ ∧ desk.receive = some (m, desk') := by
  obtain ⟨init, recv, _, _, _⟩ := it
  cases init with
  | some e =>
      simp only [Iteration.receive, Option.some.injEq, Prod.mk.injEq] at h
      obtain ⟨rfl, rfl⟩ := h
      exact .inl ⟨rfl, rfl, by simp [Iteration.Receives]⟩
  | none =>
      cases hu : desk.unanswered with
      | some u =>
          simp only [Iteration.receive, hu, Option.isSome_some, if_true, Option.some.injEq,
            Prod.mk.injEq] at h
          obtain ⟨rfl, rfl⟩ := h
          exact .inl ⟨rfl, rfl, by simp⟩
      | none =>
          cases recv with
          | error e =>
              simp only [Iteration.receive, hu, Option.isSome_none, Bool.false_eq_true, if_false,
                Option.some.injEq, Prod.mk.injEq] at h
              obtain ⟨rfl, rfl⟩ := h
              exact .inl ⟨rfl, rfl, by simp [Iteration.Receives, Except.isOk, Except.toBool]⟩
          | ok a =>
              simp only [Iteration.receive, hu, Option.isSome_none, Bool.false_eq_true,
                if_false] at h
              obtain ⟨⟨m, d⟩, hm, heq⟩ := Option.map_eq_some_iff.mp h
              obtain ⟨rfl, rfl⟩ := Prod.mk.inj heq
              exact .inr ⟨⟨rfl, rfl⟩, a, m, rfl, hm⟩

variable {strerror}

/-- The receive of an iteration that goes on after it. -/
theorem iterate_receive {role : Role} {s t : Loop} {it : Iteration} (hs : s.impl.type = .reply)
    (h : iterate strerror role s it = some t) :
    ∃ r desk c, it.receive s.desk = some (r, desk) ∧ c.type = .reply ∧
      c.queue = s.impl.queue ∧ (∀ a m, r = ⟨none, .ok (a, m)⟩ → Printable m) ∧
      ((r.errno.isNone = false ∧ t = ⟨c, s.heap, desk⟩) ∨
        r.errno.isNone = true ∧ Loop.answer strerror role ⟨c, s.heap, desk⟩ it = some t) := by
  obtain ⟨⟨r, desk⟩, hr, h⟩ := Option.bind_eq_some_iff.mp h
  obtain ⟨hplaced, h⟩ := Option.ite_none_right_eq_some.mp h
  obtain ⟨htype, hqueue⟩ := receive_keeps strerror role s.impl s.heap r
  rcases hp : role.receive strerror s.impl s.heap r with ⟨e | message, c, heap⟩
  · simp [hp] at h
  obtain ⟨hsome, hheap, hprintable⟩ := RequestLoop.receive_of_ok strerror (by simp [hs]) hp
  rw [hp] at h htype hqueue
  obtain rfl := hheap hplaced
  refine ⟨r, desk, c, hr, htype.trans hs, hqueue, hprintable, ?_⟩
  cases message with
  | none => exact .inl ⟨hsome.symm, (Option.some.inj h).symm⟩
  | some m => exact .inr ⟨hsome.symm, h⟩

/-- An iteration either leaves the requests and the queue as they are, or
it receives the next request and its reply is queued or not. -/
theorem iterate_cases {role : Role} {s t : Loop} {it : Iteration} (hs : s.impl.type = .reply)
    (h : iterate strerror role s it = some t) : t.impl.type = .reply ∧
      ((t.desk = s.desk ∧ t.impl.queue = s.impl.queue ∧
        ¬ (s.desk.unanswered = none ∧ it.Receives)) ∨
      it.Receives ∧ ∃ m desk, s.desk.receive = some (m, desk) ∧ Printable m ∧
        ((it.Replies role ∧ t.desk = desk.reply ∧
          t.impl.queue = s.impl.queue ++ [entry role it.block]) ∨
        ¬ it.Replies role ∧ t.desk = desk ∧ t.impl.queue = s.impl.queue)) := by
  obtain ⟨r, desk, c, hr, htype, hqueue, hprintable, hnext⟩ := iterate_receive hs h
  rcases receive_cases hr with ⟨herrno, rfl, hnot⟩ | ⟨hreceives, a, m, rfl, hm⟩
  · rcases hnext with ⟨-, rfl⟩ | ⟨hnone, -⟩
    · exact ⟨htype, .inl ⟨rfl, hqueue, hnot⟩⟩
    · exact absurd (herrno.symm.trans hnone) (by decide)
  · rcases hnext with ⟨hfails, -⟩ | ⟨-, hanswer⟩
    · cases hfails
    simp only [Loop.answer, Option.ite_none_right_eq_some, ofString_reply,
      Option.map_some, Option.some.injEq] at hanswer
    obtain ⟨-, rfl⟩ := hanswer
    obtain ⟨hsent, hreplies, hentry⟩ :=
      send_reply strerror role c s.heap it.block it.last it
    refine ⟨hsent.trans htype, .inr ⟨hreceives, m, desk, hm, hprintable a m rfl, ?_⟩⟩
    rw [hqueue] at hentry
    by_cases hok : it.Replies role
    · rw [if_pos (hreplies.mpr hok)] at hentry
      exact .inl ⟨hok, if_pos (hreplies.mpr hok), hentry⟩
    · have hnot := mt hreplies.mp hok
      rw [if_neg hnot] at hentry
      exact .inr ⟨hok, if_neg hnot, hentry⟩

/-- Whatever its calls come to, an iteration leaves the memory as it was. -/
theorem iterate_heap {role : Role} {s t : Loop} {it : Iteration} (hs : s.impl.type = .reply)
    (h : iterate strerror role s it = some t) : t.heap = s.heap := by
  obtain ⟨r, desk, c, -, -, -, -, ⟨-, rfl⟩ | ⟨-, hanswer⟩⟩ := iterate_receive hs h
  · rfl
  · simp only [Loop.answer, Option.ite_none_right_eq_some, ofString_reply,
      Option.map_some, Option.some.injEq] at hanswer
    obtain ⟨⟨-, hfree⟩, rfl⟩ := hanswer
    change Storage.release (Storage.put s.heap it.block _) it.block = s.heap
    rw [Storage.release, Storage.put, Function.update_idem, ← hfree, Function.update_eq_self]

/-! ## The loop -/

structure Inv (role : Role) (c : Impl) (s : Loop) : Prop where
  type : s.impl.type = .reply
  accounts : s.desk.Accounts
  printable : ∀ m ∈ s.desk.received, Printable m
  queue : ∃ blocks : List Addr, blocks.length = s.desk.answered.length ∧
    s.impl.queue = c.queue ++ blocks.map (entry role)

theorem inv_start (role : Role) {c : Impl} (hc : c.type = .reply) (heap : Heap) :
    Inv role c (.start c heap) :=
  ⟨hc, Desk.accounts_start, nofun, [], rfl, (List.append_nil _).symm⟩

theorem inv_step (role : Role) (c : Impl) : Preserves (step strerror role) (Inv role c) := by
  rintro s a t h ⟨htype, haccounts, hprintable, blocks, hlength, hqueue⟩
  cases a with
  | arrive request =>
      obtain rfl := Option.some.inj h
      exact ⟨htype, haccounts.arrive request, hprintable, blocks, hlength, hqueue⟩
  | iterate it =>
      obtain ⟨htype', ⟨hdesk, hsame, -⟩ | ⟨-, m, desk, hm, hnew, hreply⟩⟩ := iterate_cases htype h
      · exact ⟨htype', hdesk ▸ haccounts, hdesk ▸ hprintable, blocks, hdesk ▸ hlength,
          hsame.trans hqueue⟩
      · have hreceived := haccounts.receive hm
        obtain ⟨hnone, rest, -, rfl⟩ := Desk.receive_eq_some hm
        have hall : ∀ n ∈ s.desk.received ++ [m], Printable n :=
          List.forall_mem_append.mpr ⟨hprintable, List.forall_mem_singleton.mpr hnew⟩
        rcases hreply with ⟨-, hdesk, hentry⟩ | ⟨-, hdesk, hsame⟩
        · refine ⟨htype', hdesk ▸ hreceived.reply, hdesk ▸ hall, blocks ++ [it.block], ?_, ?_⟩
          · simp [hdesk, Desk.reply, hlength]
          · simp [hentry, hqueue]
        · exact ⟨htype', hdesk ▸ hreceived, hdesk ▸ hall, blocks, by rw [hdesk]; exact hlength,
            hsame.trans hqueue⟩

/-- A reply to a request that is received does not fail. -/
def Prompt (role : Role) (s : Loop) : Action → Prop
  | .arrive _ => True
  | .iterate it => s.desk.unanswered = none → it.Receives → it.Replies role

/-- Once a reply has failed nothing is received and nothing is answered. -/
theorem stuck_step {role : Role} {s t : Loop} {a : Action} (hs : s.impl.type = .reply)
    (hu : s.desk.unanswered.isSome) (h : step strerror role s a = some t) :
    t.impl.type = .reply ∧ t.desk.unanswered = s.desk.unanswered ∧
      t.desk.received = s.desk.received ∧ t.desk.answered = s.desk.answered ∧
        t.impl.queue = s.impl.queue := by
  cases a with
  | arrive request =>
      obtain rfl := Option.some.inj h
      exact ⟨hs, rfl, rfl, rfl, rfl⟩
  | iterate it =>
      obtain ⟨htype, ⟨hdesk, hsame, -⟩ | ⟨-, m, desk, hm, -, -⟩⟩ := iterate_cases hs h
      · exact ⟨htype, by rw [hdesk], by rw [hdesk], by rw [hdesk], hsame⟩
      · rw [(Desk.receive_eq_some hm).1] at hu
        cases hu

theorem stuck_run {role : Role} {s t : Loop} {as : List Action} (hs : s.impl.type = .reply)
    (hu : s.desk.unanswered.isSome) (h : run (step strerror role) s as = some t) :
    t.desk.unanswered = s.desk.unanswered ∧ t.desk.received = s.desk.received ∧
      t.desk.answered = s.desk.answered ∧ t.impl.queue = s.impl.queue := by
  have hkeep : Preserves (step strerror role) fun u => u.impl.type = .reply ∧
      u.desk.unanswered = s.desk.unanswered ∧ u.desk.received = s.desk.received ∧
        u.desk.answered = s.desk.answered ∧ u.impl.queue = s.impl.queue := by
    rintro u a v hstep ⟨htype, hunanswered, hreceived, hanswered, hqueue⟩
    obtain ⟨htype', hunanswered', hreceived', hanswered', hqueue'⟩ :=
      stuck_step htype (hunanswered ▸ hu) hstep
    exact ⟨htype', hunanswered'.trans hunanswered, hreceived'.trans hreceived,
      hanswered'.trans hanswered, hqueue'.trans hqueue⟩
  exact (hkeep.run h ⟨hs, rfl, rfl, rfl, rfl⟩).2

theorem prompt_step {role : Role} {s t : Loop} {a : Action} (hs : s.impl.type = .reply)
    (hu : s.desk.unanswered = none) (h : step strerror role s a = some t) :
    t.desk.unanswered = none ↔ Prompt role s a := by
  cases a with
  | arrive request =>
      obtain rfl := Option.some.inj h
      simpa [Desk.arrive, Prompt] using hu
  | iterate it =>
      obtain ⟨-, ⟨hdesk, -, hnot⟩ | ⟨hreceives, m, desk, hm, -, hreply⟩⟩ := iterate_cases hs h
      · exact ⟨fun _ hnone hreceives => (hnot ⟨hnone, hreceives⟩).elim, fun _ => hdesk ▸ hu⟩
      · obtain ⟨-, rest, -, rfl⟩ := Desk.receive_eq_some hm
        rcases hreply with ⟨hok, hdesk, -⟩ | ⟨hnot, hdesk, -⟩
        · exact ⟨fun _ _ _ => hok, fun _ => hdesk ▸ rfl⟩
        · refine ⟨fun hnone => ?_, fun hprompt => (hnot (hprompt hu hreceives)).elim⟩
          rw [hdesk] at hnone
          cases hnone

theorem unanswered_iff {role : Role} {s t : Loop} {as : List Action} (hs : s.impl.type = .reply)
    (hu : s.desk.unanswered = none) (h : run (step strerror role) s as = some t) :
    t.desk.unanswered = none ↔ Meets (step strerror role) (Prompt role) s as := by
  induction as generalizing s with
  | nil =>
      obtain rfl : s = t := Option.some.inj h
      simp [hu, Meets]
  | cons a as ih =>
      obtain ⟨u, hstep, hr⟩ := run_cons_eq_some.mp h
      have htype : u.impl.type = .reply := by
        cases a with
        | arrive request => exact Option.some.inj hstep ▸ hs
        | iterate it => exact (iterate_cases hs hstep).1
      have hmeets : Meets (step strerror role) (Prompt role) s (a :: as) ↔
          Prompt role s a ∧ Meets (step strerror role) (Prompt role) u as := by
        simp [Meets, hstep]
      rw [hmeets, ← prompt_step hs hu hstep]
      cases hnext : u.desk.unanswered with
      | none => simp [ih htype hnext hr]
      | some m =>
          have hstuck := (stuck_run htype (by simp [hnext]) hr).1
          simp [hstuck, hnext]

theorem program_eq_some {role : Role} {junkSocket : Handle} {junkAllocated : Bool}
    {endPoint : String} {connect : ConnectCalls} {bind : BindCalls} {heap : Heap}
    {as : List Action} {t : Loop}
    (h : program strerror role junkSocket junkAllocated endPoint connect bind heap as =
      some (0, some t)) : ∃ c : Impl, c.type = .reply ∧ c.queue = [] ∧
        run (step strerror role) (.start c heap) as = some t := by
  cases role with
  | client =>
      obtain ⟨_ | e, _ | f, g⟩ := connect
      · obtain ⟨u, hu, heq⟩ := Option.map_eq_some_iff.mp h
        obtain rfl := Option.some.inj (Prod.mk.inj heq).2
        exact ⟨_, rfl, rfl, hu⟩
      all_goals cases h
  | server =>
      obtain ⟨_ | e, _ | f⟩ := bind
      · obtain ⟨u, hu, heq⟩ := Option.map_eq_some_iff.mp h
        obtain rfl := Option.some.inj (Prod.mk.inj heq).2
        exact ⟨_, rfl, rfl, hu⟩
      all_goals cases h

/-- One request, received and answered. -/
def oneRequest : List Action := [.arrive [1], .iterate ⟨none, .ok 5, 6, 0, ⟨none, none⟩⟩]

end ReplyLoop

end ZeromqAgent
