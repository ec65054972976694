import ZeromqAgent.ErrorText
import ZeromqAgent.Session
import ZeromqAgent.Theory.Turns

/-!
# The request loop

`req_rep_client` of the test program: in each iteration a client sends one
of three messages and then receives. The loop does not look at the status
of the send, and goes on with the next iteration when the receive fails.
The client's REQ socket rejects a send while a reply is outstanding and a
receive while none is, and its peer answers each request it gets. An
exception of the receive ends the program.
-/

namespace ZeromqAgent

def SendCalls.errno (r : SendCalls) : Option Errno := r.init.or r.send

namespace RequestLoop

open Transition Turns

def updateToken : String :=
  "\x7b'msg_type' : 'ipc', 'name': 'update_token', 'data': \x7b'token': '<token>'\x7d\x7d"

def clipRequest : String :=
  "\x7b'msg_type' : 'ipc', 'name': 'clip_request', 'data': \x7b'time': '<timestamp>'\x7d\x7d"

def addCamera : String :=
  "\x7b'msg_type' : 'ipc', 'name': 'add_camera|edit_camera|delete_camera', " ++
    "'data': <camera_json_info>\x7d"

def messages : Vector String 3 := #v[updateToken, clipRequest, addCamera]

/-! ## The client's socket -/

/-- The number of the call that sends it, and the bytes handed over. -/
abbrev Request := ℕ × Option Bytes

/-- A client with the state of its REQ socket, which is the request whose
reply has not been received. -/
structure Requester where
  impl : Impl
  outstanding : Option Request

/-- The error of a call that is not possible in the state of the socket. -/
def efsm : Errno := .other 156384763

variable (strerror : Errno → String)

namespace Requester

def sendCalls (q : Requester) (r : SendCalls) : SendCalls :=
  if q.outstanding.isSome then { r with send := some efsm } else r

def receiveCalls (q : Requester) (r : ReceiveCalls) : ReceiveCalls :=
  if q.outstanding.isSome then r else { r with recv := .error efsm }

/-- `send` passes no flags to `send_worker`. -/
def send (q : Requester) (call : ℕ) (heap : Heap) (message : SendMessage) (flags : Flags)
    (r : SendCalls) : Status × Requester :=
  let r := q.sendCalls r
  let (status, c) := ClientImpl.sendWorker strerror q.impl message flags r
  let taken := if r.errno = none then some (call, message.bytes heap) else q.outstanding
  (status, ⟨c, taken⟩)

/-- The request that a received message is the reply to, if one is returned. -/
def receive (q : Requester) (heap : Heap) (r : ReceiveCalls) :
    Except Exception (Option Request) × Requester × Heap :=
  let r := q.receiveCalls r
  let (message, c, heap) := ClientImpl.receive strerror q.impl heap r
  let reply := message.map fun m => if m.isSome then q.outstanding else none
  (reply, ⟨c, if r.errno = none then none else q.outstanding⟩, heap)

end Requester

/-! ## The loop -/

/-- The message drawn, the block that `new` allocates for it, and how the
calls turn out where the state of the socket lets them. -/
structure Iteration where
  index : Fin 3
  block : Addr
  last : UInt8
  send : SendCalls
  receive : ReceiveCalls

def Iteration.message (it : Iteration) : Bytes := messages[it.index].toUTF8.data.toList

structure Loop where
  client : Requester
  heap : Heap
  reports : List (Outcome Request)

def Loop.start (c : Impl) (heap : Heap) : Loop := ⟨⟨c, none⟩, heap, []⟩

def iterate (s : Loop) (it : Iteration) : Option Loop :=
  if it.block ≠ 0 ∧ s.heap it.block = none then
    (SendMessage.ofString s.heap it.block it.last it.message).bind fun (message, heap) =>
      let call := s.reports.length
      let (status, client) := s.client.send strerror call heap message .none it.send
      if it.receive.placed heap then
        match client.receive strerror heap it.receive with
        | (.error _, _, _) => none
        | (.ok reply, client, heap) =>
            some
              { client := client
                heap := message.destroy heap
                reports := s.reports ++ [⟨(call, some it.message), status.error = .ok, reply⟩] }
      else none
  else none

/-- The exit code, and what each iteration came to. -/
def reqRepClient (junkSocket : Handle) (junkAllocated : Bool) (endPoint : String)
    (calls : ConnectCalls) (heap : Heap) (its : List Iteration) :
    Option (ℤ × List (Outcome Request)) :=
  match ClientImpl.connect strerror (.start .request junkSocket junkAllocated) endPoint calls with
  | (.notOk, _) => some (-1, [])
  | (.ok, c) => (run (iterate strerror) (.start c heap) its).map fun s => (0, s.reports)

/-- If the first iteration's receive fails and its send is not made to, the
second iteration's receive fails too. -/
def Iteration.Clear (a b : Iteration) : Prop :=
  a.send.errno = none → a.receive.errno ≠ none → b.receive.errno ≠ none

instance : DecidableRel Iteration.Clear := fun a b => by
  unfold Iteration.Clear
  infer_instance

/-! ## What the loop does to its socket -/

theorem send_round (q : Requester) (call : ℕ) (heap : Heap) (message : SendMessage)
    (flags : Flags) (r : SendCalls) :
    let taken := Turns.send q.outstanding (call, message.bytes heap) r.errno.isSome
    decide ((q.send strerror call heap message flags r).1.error = .ok) = taken.1 ∧
      (q.send strerror call heap message flags r).2.outstanding = taken.2 := by
  obtain ⟨c, _ | u⟩ := q <;> obtain ⟨_ | e, _ | e'⟩ := r <;> exact ⟨rfl, rfl⟩

/-- The bytes of a reply come and go at an address that was free. -/
theorem release_put {heap : Heap} {r : ReceiveCalls} {a : Addr} {bytes : Bytes}
    (h : r.placed heap = true) (hr : r.recv = .ok (a, bytes)) :
    Storage.release (Storage.put heap a bytes) a = heap := by
  have hfree : heap a = none := by
    simp only [ReceiveCalls.placed, hr, Bool.and_eq_true, Option.isNone_iff_eq_none] at h
    exact h.2
  rw [Storage.release, Storage.put, Function.update_idem, ← hfree, Function.update_eq_self]

/-- A receive that no exception ends. -/
theorem receive_of_ok {role : Role} {c c' : Impl} (htype : role = .server → c.type ≠ .publish)
    {heap heap' : Heap} {r : ReceiveCalls} {message : Option SendMessage}
    (h : role.receive strerror c heap r = (.ok message, c', heap')) :
    message.isSome = r.errno.isNone ∧ (r.placed heap = true → heap' = heap) ∧
      ∀ a bytes, r = ⟨none, .ok (a, bytes)⟩ → Printable bytes := by
  have hreceived := received strerror role c heap r
  rw [h] at hreceived
  cases hreceived with
  | publisher r hrole hpublish => exact (htype hrole hpublish).elim
  | init e recv htype => exact ⟨rfl, fun _ => rfl, nofun⟩
  | recv e htype => exact ⟨rfl, fun _ => rfl, nofun⟩
  | returned data bytes htype hshort =>
      refine ⟨rfl, fun hplaced => release_put hplaced rfl, ?_⟩
      rintro a bytes ⟨⟩
      exact hshort

theorem receive_of_error {role : Role} {c : Impl} {heap : Heap} {r : ReceiveCalls} {e : Exception}
    (h : (role.receive strerror c heap r).1 = .error e) :
    ∃ a bytes, r.recv = .ok (a, bytes) ∧ ¬ Printable bytes := by
  have hreceived := received strerror role c heap r
  generalize role.receive strerror c heap r = p at h hreceived
  cases hreceived with
  | thrown data bytes htype hlong => exact ⟨data, bytes, rfl, hlong⟩
  | _ => cases h

/-- The reply is to the request that was outstanding, if no exception ends
the receive. -/
theorem receive_round {q q' : Requester} {heap heap' : Heap} {r : ReceiveCalls}
    {reply : Option Request} (h : q.receive strerror heap r = (.ok reply, q', heap')) :
    let left := Turns.receive q.outstanding r.errno.isSome
    reply = left.1 ∧ q'.outstanding = left.2 ∧ (r.placed heap = true → heap' = heap) := by
  rcases hp : ClientImpl.receive strerror q.impl heap (q.receiveCalls r) with ⟨e | message, c, left⟩
  · simp [Requester.receive, hp, Except.map] at h
  simp only [Requester.receive, hp, Except.map, Prod.mk.injEq, Except.ok.injEq] at h
  obtain ⟨rfl, rfl, rfl⟩ := h
  have hclient : Role.client = .server → q.impl.type ≠ .publish := nofun
  obtain ⟨hsome, hheap, -⟩ := receive_of_ok strerror hclient hp
  rw [hsome]
  obtain ⟨c, _ | u⟩ := q
  · exact ⟨by simp [Turns.receive], by simp [Turns.receive], fun _ => hheap rfl⟩
  · refine ⟨?_, ?_, hheap⟩
    · cases hr : r.errno <;> simp [Requester.receiveCalls, Turns.receive, hr]
    · cases hr : r.errno <;> simp [Requester.receiveCalls, Turns.receive, hr]

theorem length_message (it : Iteration) : it.message.length < 2 ^ 31 - 1 := by
  have hall : ∀ i : Fin 3, messages[i].toUTF8.data.toList.length < 2 ^ 31 - 1 := by decide
  exact hall it.index

/-- What the constructor makes of any of the three messages. -/
theorem ofString_message (heap : Heap) (it : Iteration) :
    SendMessage.ofString heap it.block it.last it.message =
      some (⟨it.message.length, it.block, true⟩,
        Storage.put heap it.block (it.message ++ [it.last])) := by
  have hlength := length_message it
  have hint : toInt it.message.length = it.message.length := toInt_natCast (by omega)
  rw [SendMessage.ofString_eq_some, hint]
  refine ⟨by omega, ?_⟩
  simp

def Iteration.round (it : Iteration) (i : ℕ) : Round Request :=
  ⟨(i, some it.message), it.send.errno.isSome, it.receive.errno.isSome⟩

def rounds (its : List Iteration) : List (Round Request) := its.zipIdx.map fun p => p.1.round p.2

theorem rounds_concat (its : List Iteration) (it : Iteration) :
    rounds (its ++ [it]) = rounds its ++ [it.round its.length] := by
  simp [rounds, List.zipIdx_append]

@[simp] theorem length_rounds (its : List Iteration) : (rounds its).length = its.length := by
  simp [rounds]

theorem pairwise_rounds {its : List Iteration} :
    (rounds its).Pairwise Clear ↔ its.Pairwise Iteration.Clear := by
  have hclear : ∀ p q : Iteration × ℕ,
      Clear (p.1.round p.2) (q.1.round q.2) ↔ p.1.Clear q.1 := by
    intro p q
    simp [Clear, Iteration.Clear, Iteration.round, Option.isSome_iff_ne_none]
  rw [rounds, List.pairwise_map]
  simp only [hclear]
  rw [← List.pairwise_map (f := Prod.fst), List.zipIdx_map_fst]

variable {strerror}

theorem iterate_cases {s t : Loop} {it : Iteration} (h : iterate strerror s it = some t) :
    ∃ m heap reply client heap', s.heap it.block = none ∧ it.receive.placed heap = true ∧
      SendMessage.ofString s.heap it.block it.last it.message = some (m, heap) ∧
      let sent := s.client.send strerror s.reports.length heap m .none it.send
      sent.2.receive strerror heap it.receive = (.ok reply, client, heap') ∧
      t = ⟨client, m.destroy heap', s.reports ++
        [⟨(s.reports.length, some it.message), sent.1.error = .ok, reply⟩]⟩ := by
  unfold iterate at h
  obtain ⟨⟨-, hfree⟩, h⟩ := Option.ite_none_right_eq_some.mp h
  obtain ⟨⟨m, heap⟩, hm, h⟩ := Option.bind_eq_some_iff.mp h
  obtain ⟨hplaced, h⟩ := Option.ite_none_right_eq_some.mp h
  split at h
  · cases h
  · next reply client heap' hreceive =>
      exact ⟨m, heap, reply, client, heap', hfree, hplaced, hm, hreceive,
        (Option.some.inj h).symm⟩

/-- Whatever its calls come to, an iteration leaves the memory as it was. -/
theorem iterate_heap {s t : Loop} {it : Iteration} (h : iterate strerror s it = some t) :
    t.heap = s.heap := by
  obtain ⟨m, heap, reply, client, heap', hfree, hplaced, hm, hreceive, rfl⟩ := iterate_cases h
  obtain rfl := (receive_round strerror hreceive).2.2 hplaced
  rw [ofString_message] at hm
  obtain ⟨rfl, rfl⟩ := Prod.mk.inj (Option.some.inj hm)
  change Storage.release (Storage.put s.heap it.block _) it.block = s.heap
  rw [Storage.release, Storage.put, Function.update_idem, ← hfree, Function.update_eq_self]

theorem iterate_round {s t : Loop} {it : Iteration} (h : iterate strerror s it = some t) :
    let played := (it.round s.reports.length).play s.client.outstanding
    t.reports = s.reports ++ [played.1] ∧ t.client.outstanding = played.2 := by
  obtain ⟨m, heap, reply, client, heap', -, -, hm, hreceive, rfl⟩ := iterate_cases h
  obtain ⟨-, -, hbytes⟩ := SendMessage.bytes_of_ofString hm (length_message it)
  obtain ⟨haccepted, houtstanding⟩ :=
    send_round strerror s.client s.reports.length heap m .none it.send
  rw [SendMessage.bytes, hbytes] at haccepted houtstanding
  obtain ⟨hreply, hafter, -⟩ := receive_round strerror hreceive
  rw [houtstanding] at hreply hafter
  refine ⟨?_, hafter⟩
  simp only [haccepted, hreply]
  rfl

/-- The iterations are rounds on the socket. -/
theorem run_rounds {c : Impl} {heap : Heap} {its : List Iteration} {t : Loop}
    (hr : run (iterate strerror) (.start c heap) its = some t) :
    t.reports = outcomes none (rounds its) ∧
      t.client.outstanding = after none (rounds its) := by
  refine run_history (P := fun its t => t.reports = outcomes none (rounds its) ∧
    t.client.outstanding = after none (rounds its)) hr ⟨rfl, rfl⟩ ?_
  rintro its it s t ⟨hreports, houtstanding⟩ h
  have hplayed := iterate_round h
  have hlength : s.reports.length = its.length := by simp [hreports]
  rw [hlength, houtstanding] at hplayed
  rw [rounds_concat, outcomes_concat, after_concat, hplayed.1, hplayed.2, hreports]
  exact ⟨rfl, rfl⟩

theorem own_of_reqRepClient {junkSocket : Handle} {junkAllocated : Bool} {endPoint : String}
    {calls : ConnectCalls} {heap : Heap} {its : List Iteration} {reports : List (Outcome Request)}
    (h : reqRepClient strerror junkSocket junkAllocated endPoint calls heap its =
      some (0, reports)) :
    (∀ o ∈ reports, o.Own) ↔ its.Pairwise Iteration.Clear := by
  unfold reqRepClient at h
  split at h
  · simp at h
  · obtain ⟨t, ht, heq⟩ := Option.map_eq_some_iff.mp h
    obtain ⟨-, rfl⟩ := Prod.mk.inj heq
    rw [(run_rounds ht).1, forall_own_iff, pairwise_rounds]

end RequestLoop

end ZeromqAgent
