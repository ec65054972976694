import ZeromqAgent.ClientServer
import ZeromqAgent.Theory.Transition

/-!
# The buffers of sent messages

A client and a server send messages whose bytes are in the caller's
buffers, and libzmq's I/O thread transmits each accepted message at some
later moment. The client hands over a pointer, the server a copy. While
the caller keeps the buffers that the client's queue points into, both
transmit the bytes of the accepted messages in the order of the calls.
-/

namespace ZeromqAgent.SendBuffers

open Transition

/-- The two senders and the caller's memory. `accepted` records the bytes
of each message whose send returned `OK`, as they were at the call;
`transmitted` what the I/O thread found to transmit. -/
structure System where
  heap : Heap
  impl : Role → Impl
  accepted : Role → List Bytes
  transmitted : Role → List (Option Bytes)

/-- `construct` and `destruct` are those of `SendMessage`; `alloc` and `free`
are for the buffers that a caller passes by pointer. -/
inductive Action where
  | construct (a : Addr) (last : UInt8) (message : Bytes)
  | destruct (message : SendMessage)
  | alloc (a : Addr) (block : Bytes)
  | free (a : Addr)
  | write (a : Addr) (block : Bytes)
  | send (message : SendMessage) (r : SendCalls)
  | publish (message : SendMessage) (r : Option Errno)
  | flush (role : Role)

def System.start (client server : Impl) : System where
  heap := fun _ => none
  impl := fun role => match role with
    | .client => client
    | .server => server
  accepted := fun _ => []
  transmitted := fun _ => []

def System.sent (s : System) (role : Role) (c : Impl) (status : Status) (bytes : Bytes) : System :=
  { s with
    impl := Function.update s.impl role c
    accepted := if status.error = .ok then
        Function.update s.accepted role (s.accepted role ++ [bytes])
      else s.accepted }

/-- What is there to send of a message. -/
def found (message : SendMessage) (heap : Heap) : Option Bytes :=
  (Entry.borrowed message.data (toSize message.size)).content heap

variable (strerror : Errno → String)

/-- An address is allocated while it is free and released while it is not;
a message that is sent lies in storage that is there, or is empty. -/
def step (s : System) : Action → Option System
  | .construct a last message =>
      if a ≠ 0 ∧ s.heap a = none then
        (SendMessage.ofString s.heap a last message).map fun p => { s with heap := p.2 }
      else none
  | .destruct message =>
      if message.isAllocated → s.heap message.data ≠ none then
        some { s with heap := message.destroy s.heap }
      else none
  | .alloc a block =>
      if a ≠ 0 ∧ s.heap a = none then some { s with heap := Storage.put s.heap a block }
      else none
  | .free a => if s.heap a ≠ none then some { s with heap := Storage.release s.heap a } else none
  | .write a block =>
      if (s.heap a).map List.length = some block.length then
        some { s with heap := Storage.put s.heap a block }
      else none
  | .send message r =>
      (found message s.heap).map fun bytes =>
        let (status, c) := ClientImpl.send strerror (s.impl .client) message r
        s.sent .client c status bytes
  | .publish message r =>
      (found message s.heap).map fun bytes =>
        let (status, c) := ServerImpl.publish strerror (s.impl .server) s.heap message r
        s.sent .server c status bytes
  | .flush role =>
      match (s.impl role).queue with
      | [] => none
      | entry :: _ =>
          let c := s.impl role
          some { s with
            impl := Function.update s.impl role
              { c with context := c.context.transmit c.socket }
            transmitted := Function.update s.transmitted role
              (s.transmitted role ++ [entry.content s.heap]) }

def System.Unqueued (s : System) (a : Addr) : Prop :=
  ∀ entry ∈ (s.impl .client).queue, entry.refersTo a = false

instance (s : System) (a : Addr) : Decidable (s.Unqueued a) := by
  unfold System.Unqueued
  infer_instance

/-- The caller does not release or overwrite a buffer that the client's
queue still points into. -/
def Keeps (s : System) : Action → Prop
  | .destruct message => message.isAllocated = true → s.Unqueued message.data
  | .free a => s.Unqueued a
  | .write a _ => s.Unqueued a
  | _ => True

instance (s : System) (a : Action) : Decidable (Keeps s a) := by
  cases a <;> unfold Keeps <;> infer_instance

/-! ## What is transmitted -/

/-- What was transmitted and what would be transmitted now are the accepted
messages; the server's queue does not point anywhere. -/
structure Inv (s : System) : Prop where
  faithful : ∀ role, s.transmitted role ++ (s.impl role).queue.map (Entry.content s.heap) =
    (s.accepted role).map some
  copied : ∀ entry ∈ (s.impl .server).queue, ∀ a, entry.refersTo a = false

variable {s t : System}

theorem inv_start {client server : Impl} (hc : client.queue = []) (hs : server.queue = []) :
    Inv (.start client server) := by
  refine ⟨?_, by simp [System.start, hs]⟩
  rintro (_ | _)
  · simp [System.start, hc]
  · simp [System.start, hs]

theorem Inv.content (hi : Inv s) {role : Role} {entry : Entry}
    (he : entry ∈ (s.impl role).queue) : entry.content s.heap ≠ none := by
  have hmem : entry.content s.heap ∈ (s.accepted role).map some := by
    rw [← hi.faithful role]
    exact List.mem_append_right _ (List.mem_map_of_mem he)
  obtain ⟨bytes, -, hbytes⟩ := List.mem_map.mp hmem
  simp [← hbytes]

theorem Inv.unqueued (hi : Inv s) {a : Addr} (ha : s.heap a = none) : s.Unqueued a := by
  intro entry he
  cases entry with
  | copied bytes => rfl
  | borrowed b size =>
      have hread := hi.content he
      have hempty : b = a → size = 0 := by
        rintro rfl
        by_contra hsize
        exact hread (by simp [Entry.content, Storage.read, ha, hsize])
      simpa [Entry.refersTo] using hempty

theorem Inv.update (hi : Inv s) {a : Addr} (ha : s.Unqueued a) (block : Option Bytes) :
    Inv { s with heap := Function.update s.heap a block } := by
  refine ⟨?_, hi.copied⟩
  intro role
  have hcontent : (s.impl role).queue.map (Entry.content (Function.update s.heap a block)) =
      (s.impl role).queue.map (Entry.content s.heap) := by
    apply List.map_congr_left
    intro entry he
    apply Entry.content_update
    cases role with
    | client => exact ha entry he
    | server => exact hi.copied entry he a
  rw [hcontent]
  exact hi.faithful role

theorem Inv.sent (hi : Inv s) {role : Role} {c : Impl} {status : Status} {bytes : Bytes}
    {entry : Entry} (hq : c.queue = if status.error = .ok then (s.impl role).queue ++ [entry]
      else (s.impl role).queue) (hentry : entry.content s.heap = some bytes)
    (hcopied : role = .server → ∀ a, entry.refersTo a = false) :
    Inv (s.sent role c status bytes) := by
  cases herror : status.error with
  | notOk =>
      rw [herror] at hq
      refine ⟨?_, ?_⟩
      · intro role'
        by_cases hr : role' = role
        · subst hr
          simpa [System.sent, herror, hq] using hi.faithful role'
        · simpa [System.sent, herror, Function.update_of_ne hr] using hi.faithful role'
      · cases role with
        | client => simpa [System.sent] using hi.copied
        | server => simpa [System.sent, hq] using hi.copied
  | ok =>
      rw [herror] at hq
      refine ⟨?_, ?_⟩
      · intro role'
        by_cases hr : role' = role
        · subst hr
          have hf := hi.faithful role'
          simp only [System.sent, herror, Function.update_self, hq, if_true, List.map_append,
            List.map_singleton, hentry]
          rw [← List.append_assoc, hf]
        · simpa [System.sent, herror, Function.update_of_ne hr] using hi.faithful role'
      · cases role with
        | client => simpa [System.sent] using hi.copied
        | server =>
            intro entry he
            simp only [System.sent, Function.update_self, hq, if_true] at he
            rcases List.mem_append.mp he with hold | hnew
            · exact hi.copied entry hold
            · exact List.mem_singleton.mp hnew ▸ hcopied rfl

theorem Inv.flush (hi : Inv s) {role : Role} {entry : Entry} {rest : List Entry}
    (hq : (s.impl role).queue = entry :: rest) :
    Inv { s with
      impl := Function.update s.impl role { s.impl role with
        context := (s.impl role).context.transmit (s.impl role).socket }
      transmitted := Function.update s.transmitted role
        (s.transmitted role ++ [entry.content s.heap]) } := by
  have htail : Impl.queue { s.impl role with
      context := (s.impl role).context.transmit (s.impl role).socket } = rest := by
    have hout : (s.impl role).context.outbound (s.impl role).socket = entry :: rest := hq
    simp [Impl.queue, Context.transmit, hout]
  refine ⟨?_, ?_⟩
  · intro role'
    by_cases hr : role' = role
    · subst hr
      have hf := hi.faithful role'
      rw [hq] at hf
      simpa [htail] using hf
    · simpa [Function.update_of_ne hr] using hi.faithful role'
  · cases role with
    | client => simpa using hi.copied
    | server =>
        have hcopied := hi.copied
        rw [hq] at hcopied
        simpa [htail] using fun e he => hcopied e (List.mem_cons_of_mem _ he)

theorem bytes_of_found {message : SendMessage} {heap : Heap} {bytes : Bytes}
    (h : found message heap = some bytes) : (message.bytes heap).getD [] = bytes := by
  by_cases hsize : toSize message.size = 0
  · obtain rfl : [] = bytes := by simpa [found, Entry.content, hsize] using h
    cases hread : message.bytes heap with
    | none => rfl
    | some bytes =>
        have hcontent := Entry.content_of_read hread
        rw [hsize] at hcontent
        simpa [Entry.content] using hcontent.symm
  · have hread : message.bytes heap = some bytes := by
      simpa [SendMessage.bytes, found, Entry.content, hsize] using h
    rw [hread, Option.getD_some]

theorem inv_step : PreservesUnder (step strerror) Keeps Inv := by
  intro s a t hkeeps h hi
  cases a with
  | construct a last message =>
      obtain ⟨⟨-, hfree⟩, h⟩ := Option.ite_none_right_eq_some.mp h
      obtain ⟨p, hp, rfl⟩ := Option.map_eq_some_iff.mp h
      obtain ⟨block, hblock⟩ := SendMessage.exists_put_of_ofString hp
      rw [hblock]
      exact hi.update (hi.unqueued hfree) (some block)
  | destruct message =>
      obtain ⟨-, h⟩ := Option.ite_none_right_eq_some.mp h
      obtain rfl := Option.some.inj h
      cases halloc : message.isAllocated with
      | true =>
          simp only [SendMessage.destroy, halloc, if_true]
          exact hi.update (hkeeps halloc) none
      | false => simpa [SendMessage.destroy, halloc] using hi
  | alloc a block =>
      obtain ⟨⟨-, hfree⟩, h⟩ := Option.ite_none_right_eq_some.mp h
      exact Option.some.inj h ▸ hi.update (hi.unqueued hfree) _
  | free a =>
      obtain ⟨-, h⟩ := Option.ite_none_right_eq_some.mp h
      exact Option.some.inj h ▸ hi.update hkeeps none
  | write a block =>
      obtain ⟨-, h⟩ := Option.ite_none_right_eq_some.mp h
      exact Option.some.inj h ▸ hi.update hkeeps _
  | send message r =>
      obtain ⟨bytes, hbytes, rfl⟩ := Option.map_eq_some_iff.mp h
      exact hi.sent (sendWorker_queue strerror (s.impl .client) message .none r) hbytes (by simp)
  | publish message r =>
      obtain ⟨bytes, hbytes, rfl⟩ := Option.map_eq_some_iff.mp h
      refine hi.sent (publishWorker_queue strerror (s.impl .server) s.heap message .none r) ?_ ?_
      · exact congrArg some (bytes_of_found hbytes)
      · exact fun _ _ => rfl
  | flush role =>
      cases hq : (s.impl role).queue with
      | nil => simp [step, hq] at h
      | cons entry rest =>
          simp only [step, hq, Option.some.injEq] at h
          exact h ▸ hi.flush hq

/-- While the caller keeps the buffers that are queued, either sender has
transmitted the bytes of its accepted messages in the order of the calls
and has the others still to transmit. Two senders that accepted the same
messages and transmitted as many of them transmitted the same. -/
theorem transmitted_accepted {client server : Impl} {as : List Action}
    (hc : client.queue = []) (hs : server.queue = [])
    (hm : Meets (step strerror) Keeps (.start client server) as)
    (hr : run (step strerror) (.start client server) as = some t) :
    (∀ role, t.transmitted role ++ (t.impl role).queue.map (Entry.content t.heap) =
        (t.accepted role).map some) ∧
      (t.accepted .client = t.accepted .server →
        (t.transmitted .client).length = (t.transmitted .server).length →
          t.transmitted .client = t.transmitted .server) := by
  have hi := (inv_step strerror).run hm hr (inv_start hc hs)
  refine ⟨hi.faithful, ?_⟩
  intro haccepted hlength
  have hall : t.transmitted .client ++ (t.impl .client).queue.map (Entry.content t.heap) =
      t.transmitted .server ++ (t.impl .server).queue.map (Entry.content t.heap) := by
    rw [hi.faithful, hi.faithful, haccepted]
  exact (List.append_inj hall hlength).1

def connected : System :=
  .start (ClientImpl.connect (fun _ => "") (.start .request 0 false) "url" ⟨none, none, none⟩).2
    (ServerImpl.bind (fun _ => "") (.start .reply 0 false) "url" ⟨none, none⟩).2

def sentOnce : List Action :=
  [.construct 1 0 [7], .send ⟨1, 1, true⟩ ⟨none, none⟩, .publish ⟨1, 1, true⟩ none,
    .flush .client, .destruct ⟨1, 1, true⟩, .flush .server]

theorem transmitted_accepted_once : ∃ t, run (step fun _ => "") connected sentOnce = some t ∧
    t.transmitted .client = [some [7]] ∧ t.transmitted .client = t.transmitted .server := by
  refine ⟨_, rfl, rfl, ?_⟩
  exact (transmitted_accepted (fun _ => "") (by rfl) (by rfl)
    (show Meets (step fun _ => "") Keeps connected sentOnce by decide) rfl).2 rfl rfl

/-- The client's message is destroyed and its storage holds the next
message when the I/O thread comes to transmit. -/
def reused : List Action :=
  [.construct 1 0 [7], .send ⟨1, 1, true⟩ ⟨none, none⟩, .destruct ⟨1, 1, true⟩,
    .construct 1 0 [8], .flush .client]

theorem transmitted_accepted_fails : ¬ ∀ (strerror : Errno → String) (client server : Impl)
    (as : List Action) (t : System), client.queue = [] → server.queue = [] →
      run (step strerror) (.start client server) as = some t →
        ∀ role, t.transmitted role <+: (t.accepted role).map some := by
  intro h
  have hsent := h (fun _ => "") (connected.impl .client) (connected.impl .server) reused _ rfl rfl
    rfl .client
  revert hsent
  decide

end ZeromqAgent.SendBuffers
