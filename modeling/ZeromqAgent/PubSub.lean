import ZeromqAgent.RequestLoop
import ZeromqAgent.Theory.Pipes

/-!
# Publisher and subscribers

`pub_sub_server` and `pub_sub_client` of the test program: one server
publishes one of three messages in each iteration, and any number of
clients receive. The PUB socket never waits: what its server hands over
goes at once to the pipe of each client whose subscription has come to it,
and is dropped for one whose pipe is full. The SUB sockets subscribe to
everything. Both loops go on after a call that fails, and an exception of
the receive ends the program.
-/

namespace ZeromqAgent

namespace PubSub

open Pipes Transition

variable (strerror : Errno → String)

/-! ## The publisher's loop -/

/-- The message drawn, the block that `new` allocates for it, and how the
call turns out. -/
structure Publication where
  index : Fin 3
  block : Addr
  last : UInt8
  send : Option Errno

def Publication.message (it : Publication) : Bytes :=
  RequestLoop.messages[it.index].toUTF8.data.toList

/-- `left` counts the iterations to come. -/
structure Publisher where
  impl : Impl
  heap : Heap
  left : ℕ

/-- The loop does not look at the status. -/
def Publisher.iterate (p : Publisher) (it : Publication) : Option Publisher :=
  if p.left ≠ 0 ∧ it.block ≠ 0 ∧ p.heap it.block = none then
    (SendMessage.ofString p.heap it.block it.last it.message).map fun (message, heap) =>
      let (_, c) := ServerImpl.publish strerror p.impl heap message it.send
      ⟨c, message.destroy heap, p.left - 1⟩
  else none

/-! ## The subscriber's loop -/

/-- How the calls of a receive turn out if a message is there, and where it
is put. -/
structure Attempt where
  init : Option Errno
  recv : Except Errno Addr

def Attempt.Ok (r : Attempt) : Prop := r.init = none ∧ ∃ a, r.recv = .ok a

/-- `returned` has the messages that the calls of `receive` returned. -/
structure Subscriber where
  impl : Impl
  heap : Heap
  left : ℕ
  pipe : Pipe Bytes
  returned : List SendMessage

/-- The calls of the receive with the pipe after them, unless it waits. -/
def Attempt.receive (r : Attempt) (pipe : Pipe Bytes) : Option (ReceiveCalls × Pipe Bytes) :=
  match r.init with
  | some e => some (⟨some e, .error e⟩, pipe)
  | none =>
      match r.recv with
      | .error e => some (⟨none, .error e⟩, pipe)
      | .ok a => pipe.take.map fun p => (⟨none, .ok (a, p.1)⟩, p.2)

def Subscriber.iterate (u : Subscriber) (r : Attempt) : Option Subscriber :=
  if u.left ≠ 0 then
    (r.receive u.pipe).bind fun (calls, pipe) =>
      if calls.placed u.heap then
        match ClientImpl.receive strerror u.impl u.heap calls with
        | (.error _, _, _) => none
        | (.ok message, c, heap) =>
            some ⟨c, heap, u.left - 1, pipe, u.returned ++ message.toList⟩
      else none
  else none

/-- The socket option is set, so that the subscription is on its way. -/
def Subscriber.subscribes (u : Subscriber) : Bool :=
  u.impl.context.calls.contains (.setsockopt u.impl.socket)

/-! ## All of them -/

structure System (C : Type) where
  publisher : Publisher
  subscriber : C → Subscriber

def System.start {C : Type} (server : Impl) (heap : Heap) (m : ℕ) (clients : C → Impl)
    (heaps : C → Heap) (n : ℕ) : System C where
  publisher := ⟨server, heap, m⟩
  subscriber := fun c => ⟨clients c, heaps c, n, .start, []⟩

/-- `join` brings the subscription of a client to the publisher. -/
inductive Event (C : Type) where
  | join (c : C)
  | publish (it : Publication)
  | receive (c : C) (r : Attempt)

def Event.Ok {C : Type} : Event C → Prop
  | .join _ => True
  | .publish it => it.send = none
  | .receive _ r => r.Ok

def Publication.sent (it : Publication) : List Bytes :=
  if it.send = none then [it.message] else []

/-- The messages drawn in the calls of `publish` that did not fail. -/
def Event.published {C : Type} : Event C → List Bytes
  | .publish it => it.sent
  | _ => []

/-- What the socket has of the last call goes to all pipes. -/
def System.publish {C : Type} (capacity : C → ℕ) (s : System C) (p : Publisher) : System C :=
  let queued := p.impl.queue.drop s.publisher.impl.queue.length
  let sent := queued.filterMap (Entry.content p.heap)
  { publisher := p
    subscriber := fun c =>
      let u := s.subscriber c
      { u with pipe := u.pipe.offers (capacity c) sent } }

variable {C : Type} [DecidableEq C]

def step (capacity : C → ℕ) (s : System C) : Event C → Option (System C)
  | .join c =>
      let u := s.subscriber c
      if u.subscribes = true ∧ u.pipe.isOpen = false then
        some { s with
          subscriber := Function.update s.subscriber c { u with pipe := u.pipe.connect } }
      else none
  | .publish it => (s.publisher.iterate strerror it).map fun p => s.publish capacity p
  | .receive c r => ((s.subscriber c).iterate strerror r).map fun u =>
      { s with subscriber := Function.update s.subscriber c u }

def Event.joins (c : C) : Event C → Bool
  | .join d => d = c
  | _ => false

/-- What is published after the subscription of a client has come. -/
def since (c : C) : List (Event C) → List Bytes
  | [] => []
  | e :: es => if e.joins c then es.flatMap Event.published else since c es

theorem since_concat (c : C) (es : List (Event C)) (e : Event C) :
    since c (es ++ [e]) =
      since c es ++ if es.any (Event.joins c) then e.published else [] := by
  induction es with
  | nil => cases e <;> simp [since]
  | cons e' es ih =>
      cases hjoins : e'.joins c with
      | false => simpa [since, hjoins] using ih
      | true => simp [since, hjoins]

theorem since_suffix (c : C) (es : List (Event C)) :
    since c es <:+ es.flatMap Event.published := by
  induction es with
  | nil => exact List.suffix_rfl
  | cons e es ih =>
      have htail : es.flatMap Event.published <:+ (e :: es).flatMap Event.published := by
        rw [List.flatMap_cons]
        exact List.suffix_append _ _
      unfold since
      split
      · exact htail
      · exact ih.trans htail

/-! ## What an iteration does -/

variable {strerror} {capacity : C → ℕ}

theorem length_message (it : Publication) : it.message.length < 2 ^ 31 - 1 := by
  have hall : ∀ i : Fin 3,
      RequestLoop.messages[i].toUTF8.data.toList.length < 2 ^ 31 - 1 := by decide
  exact hall it.index

/-- An iteration of the publisher leaves the message drawn in the queue of
the socket, or none if the call fails. -/
theorem Publisher.iterate_eq_some {p q : Publisher} {it : Publication}
    (h : p.iterate strerror it = some q) : p.left ≠ 0 ∧ q.left = p.left - 1 ∧
      q.impl.queue = p.impl.queue ++ it.sent.map .copied := by
  obtain ⟨⟨hleft, -, -⟩, h⟩ := Option.ite_none_right_eq_some.mp h
  obtain ⟨⟨message, heap⟩, hm, rfl⟩ := Option.map_eq_some_iff.mp h
  obtain ⟨-, -, hread⟩ := SendMessage.bytes_of_ofString hm (length_message it)
  have hbytes : message.bytes heap = some it.message := hread
  have hqueue := publishWorker_queue strerror p.impl heap message .none it.send
  refine ⟨hleft, rfl, hqueue.trans ?_⟩
  cases hsend : it.send with
  | none => simp [ServerImpl.publishWorker, Status.init, Publication.sent, hsend, hbytes]
  | some e => simp [ServerImpl.publishWorker, Publication.sent, hsend]

omit [DecidableEq C] in
theorem System.publish_subscriber {s : System C} {p : Publisher} {it : Publication}
    (h : s.publisher.iterate strerror it = some p) (c : C) :
    (s.publish capacity p).subscriber c =
      { s.subscriber c with pipe := (s.subscriber c).pipe.offers (capacity c) it.sent } := by
  have hcontent : Entry.content p.heap ∘ Entry.copied = some := rfl
  simp only [System.publish, (Publisher.iterate_eq_some h).2.2, List.drop_left,
    List.filterMap_map, hcontent, List.filterMap_some]

theorem Attempt.receive_cases {r : Attempt} {pipe pipe' : Pipe Bytes} {calls : ReceiveCalls}
    (h : r.receive pipe = some (calls, pipe')) :
    (¬ r.Ok ∧ calls.bytes = none ∧ pipe' = pipe) ∨
      r.Ok ∧ ∃ m, calls.init = none ∧ calls.bytes = some m ∧ pipe.take = some (m, pipe') := by
  obtain ⟨init, recv⟩ := r
  cases init with
  | some e =>
      obtain ⟨rfl, rfl⟩ := Prod.mk.inj (Option.some.inj h)
      exact .inl ⟨by simp [Attempt.Ok], rfl, rfl⟩
  | none =>
      cases recv with
      | error e =>
          obtain ⟨rfl, rfl⟩ := Prod.mk.inj (Option.some.inj h)
          exact .inl ⟨by simp [Attempt.Ok], rfl, rfl⟩
      | ok a =>
          obtain ⟨⟨m, rest⟩, htake, heq⟩ := Option.map_eq_some_iff.mp h
          obtain ⟨rfl, rfl⟩ := Prod.mk.inj heq
          exact .inr ⟨⟨rfl, a, rfl⟩, m, rfl, rfl, htake⟩

/-- The size of the message that `receive` returns, if it returns. -/
theorem size_of_receive {c c' : Impl} {heap heap' : Heap} {calls : ReceiveCalls}
    {message : Option SendMessage}
    (h : ClientImpl.receive strerror c heap calls = (.ok message, c', heap')) :
    message.map SendMessage.size =
      if calls.init = none then calls.bytes.map fun m => toInt m.length else none := by
  have hreceived := received strerror .client c heap calls
  rw [show Role.receive strerror .client c heap calls = (.ok message, c', heap') from h]
    at hreceived
  cases hreceived with
  | publisher r hrole htype => cases hrole
  | init e recv htype => rfl
  | recv e htype => rfl
  | returned data bytes htype hshort => simp [ReceiveCalls.bytes, Except.toOption]

/-- A receive that returns a message has taken it from the pipe. -/
theorem Subscriber.iterate_cases {u v : Subscriber} {r : Attempt}
    (h : u.iterate strerror r = some v) : u.left ≠ 0 ∧ v.left = u.left - 1 ∧
      ((¬ r.Ok ∧ v.pipe = u.pipe ∧ v.returned = u.returned) ∨
        r.Ok ∧ ∃ m x, u.pipe.take = some (m, v.pipe) ∧ v.returned = u.returned ++ [x] ∧
          x.size = toInt m.length) := by
  obtain ⟨hleft, h⟩ := Option.ite_none_right_eq_some.mp h
  obtain ⟨⟨calls, pipe⟩, hcalls, h⟩ := Option.bind_eq_some_iff.mp h
  obtain ⟨-, h⟩ := Option.ite_none_right_eq_some.mp h
  split at h
  · cases h
  · next message c heap hreceive =>
      obtain rfl := Option.some.inj h
      have hsize := size_of_receive hreceive
      refine ⟨hleft, rfl, ?_⟩
      obtain ⟨hfails, hbytes, rfl⟩ | ⟨hok, m, hinit, hbytes, htake⟩ := Attempt.receive_cases hcalls
      · have hnone : message = none := by simpa [hbytes] using hsize
        exact .inl ⟨hfails, rfl, by rw [hnone, Option.toList_none, List.append_nil]⟩
      · rw [if_pos hinit, hbytes, Option.map_some] at hsize
        obtain ⟨x, rfl, hx⟩ := Option.map_eq_some_iff.mp hsize
        exact .inr ⟨hok, m, x, htake, rfl, hx⟩

/-! ## Every run -/

/-- What the pipe of a client and the messages it got owe to the events. -/
structure Subscriber.Follows (capacity : ℕ) (c : C) (es : List (Event C)) (u : Subscriber) :
    Prop where
  accounts : u.pipe.Accounts capacity
  isOpen : u.pipe.isOpen = es.any (Event.joins c)
  due : u.pipe.due = since c es
  returned : u.returned.map SendMessage.size = u.pipe.taken.map fun m => toInt m.length

structure Inv (capacity : C → ℕ) (server : Impl) (es : List (Event C)) (s : System C) : Prop where
  queue : s.publisher.impl.queue = server.queue ++ (es.flatMap Event.published).map .copied
  subscriber : ∀ c, (s.subscriber c).Follows (capacity c) c es

theorem inv_start (capacity : C → ℕ) (server : Impl) (heap : Heap) (m : ℕ) (clients : C → Impl)
    (heaps : C → Heap) (n : ℕ) :
    Inv capacity server [] (.start server heap m clients heaps n) where
  queue := (List.append_nil _).symm
  subscriber := fun c => ⟨Pipe.accounts_start (capacity c), rfl, rfl, rfl⟩

variable {k : ℕ} {c : C} {es : List (Event C)} {e : Event C} {u v : Subscriber}

theorem Subscriber.Follows.frame (hu : u.Follows k c es) (hjoins : e.joins c = false)
    (hpublished : e.published = []) : u.Follows k c (es ++ [e]) where
  accounts := hu.accounts
  isOpen := by simpa [hjoins] using hu.isOpen
  due := by simpa [since_concat, hpublished] using hu.due
  returned := hu.returned

theorem Subscriber.Follows.join (hu : u.Follows k c es) :
    Subscriber.Follows k c (es ++ [.join c]) { u with pipe := u.pipe.connect } where
  accounts := hu.accounts.connect
  isOpen := by simp [Pipe.connect, Event.joins]
  due := by simpa [Pipe.connect, since_concat, Event.published] using hu.due
  returned := hu.returned

theorem Subscriber.Follows.publish (hu : u.Follows k c es) (it : Publication) :
    Subscriber.Follows k c (es ++ [.publish it]) { u with pipe := u.pipe.offers k it.sent } where
  accounts := hu.accounts.offers it.sent
  isOpen := by simpa [Event.joins] using hu.isOpen
  due := by rw [Pipe.due_offers, since_concat, hu.due, hu.isOpen]; rfl
  returned := by simpa using hu.returned

theorem Subscriber.Follows.receive {r : Attempt} (hu : u.Follows k c es)
    (h : u.iterate strerror r = some v) : v.Follows k c (es ++ [.receive c r]) := by
  apply Subscriber.Follows.frame _ rfl rfl
  obtain ⟨haccounts, hisOpen, hdue, hreturned⟩ := hu
  obtain ⟨-, -, ⟨-, hpipe, hsame⟩ | ⟨-, m, x, htake, hone, hsize⟩⟩ := iterate_cases h
  · exact ⟨hpipe ▸ haccounts, hpipe ▸ hisOpen, hpipe ▸ hdue, by rw [hpipe, hsame, hreturned]⟩
  · have hafter := haccounts.take htake
    obtain ⟨rest, -, hpipe⟩ := Pipe.take_eq_some htake
    refine ⟨hafter, ?_, ?_, ?_⟩
    · rw [hpipe]
      exact hisOpen
    · rw [hpipe]
      exact hdue
    · rw [hone, hpipe, List.map_append, List.map_append, hreturned]
      simp [hsize]

theorem inv_step {server : Impl} {s t : System C} (h : step strerror capacity s e = some t)
    (hs : Inv capacity server es s) : Inv capacity server (es ++ [e]) t := by
  obtain ⟨hqueue, hsubscriber⟩ := hs
  cases e with
  | join c =>
      obtain ⟨-, h⟩ := Option.ite_none_right_eq_some.mp h
      obtain rfl := Option.some.inj h
      refine ⟨by simpa [Event.published] using hqueue, fun d => ?_⟩
      by_cases hd : d = c
      · subst hd
        simpa using (hsubscriber d).join
      · have hjoins : (Event.join c).joins d = false := decide_eq_false (Ne.symm hd)
        simpa [hd] using (hsubscriber d).frame hjoins rfl
  | publish it =>
      obtain ⟨p, hp, rfl⟩ := Option.map_eq_some_iff.mp h
      constructor
      · have hsent := (Publisher.iterate_eq_some hp).2.2
        rw [hqueue] at hsent
        simpa [System.publish, Event.published] using hsent
      · intro d
        rw [System.publish_subscriber hp]
        exact (hsubscriber d).publish it
  | receive c r =>
      obtain ⟨u, hu, rfl⟩ := Option.map_eq_some_iff.mp h
      refine ⟨by simpa [Event.published] using hqueue, fun d => ?_⟩
      by_cases hd : d = c
      · subst hd
        simpa using (hsubscriber d).receive hu
      · simpa [hd] using (hsubscriber d).frame (e := .receive c r) rfl rfl

section

variable {server : Impl} {heap : Heap} {m n : ℕ} {clients : C → Impl} {heaps : C → Heap}
  {s : System C}

theorem inv_of_run (hr : run (step strerror capacity) (.start server heap m clients heaps n) es =
    some s) : Inv capacity server es s :=
  run_history (P := Inv capacity server) hr (inv_start capacity server heap m clients heaps n)
    fun _ _ _ _ hs h => inv_step h hs

theorem length_of_mem_since {b : Bytes} (h : b ∈ since c es) : b.length < 2 ^ 31 - 1 := by
  obtain ⟨e, -, hb⟩ := List.mem_flatMap.mp ((since_suffix c es).subset h)
  cases e with
  | publish it =>
      obtain ⟨-, rfl⟩ : it.send = none ∧ b = it.message := by
        simpa [Event.published, Publication.sent] using hb
      exact length_message it
  | join d => cases hb
  | receive d r => cases hb

/-- In every run, whatever fails, the server's socket has been handed the
messages drawn, in order, less those whose call failed. What a subscriber
has received and what waits for it is, in its order and each message once,
what was published since its subscription came to the publisher, less as
many messages as found its pipe full; nothing of it is missing exactly when
none did. `receive` returned the messages received, with their sizes, and
throws for none of those that wait. -/
theorem delivery (hr : run (step strerror capacity) (.start server heap m clients heaps n) es =
    some s) (d : C) :
    let u := s.subscriber d
    s.publisher.impl.queue = server.queue ++ (es.flatMap Event.published).map .copied ∧
      List.Sublist (u.pipe.taken ++ u.pipe.waiting) (since d es) ∧
      (since d es).length = u.pipe.taken.length + u.pipe.waiting.length + u.pipe.dropped ∧
      u.pipe.waiting.length ≤ capacity d ∧
      (u.pipe.taken ++ u.pipe.waiting = since d es ↔ u.pipe.dropped = 0) ∧
      (u.returned.map SendMessage.size = u.pipe.taken.map fun b => (b.length : ℤ)) ∧
      ∀ b ∈ u.pipe.waiting, Printable b := by
  obtain ⟨hqueue, hsubscriber⟩ := inv_of_run hr
  obtain ⟨haccounts, -, hdue, hreturned⟩ := hsubscriber d
  have horder := haccounts.order
  have hlength := haccounts.length
  have hall := haccounts.all_iff
  rw [hdue] at horder hlength hall
  refine ⟨hqueue, horder, hlength, haccounts.waiting_le, hall, hreturned.trans ?_, ?_⟩
  · apply List.map_congr_left
    intro b hb
    have hshort := length_of_mem_since (horder.subset (List.mem_append_left _ hb))
    exact toInt_natCast (by omega)
  · intro b hb
    have hshort := length_of_mem_since (horder.subset (List.mem_append_right _ hb))
    unfold Printable
    omega

/-- A server and a client that have set up their sockets. -/
def bound : Impl :=
  (ServerImpl.bind (fun _ => "") (.start .publish 0 false) "tcp://*:5559" ⟨none, none⟩).2

def connected : Impl :=
  (ClientImpl.connect (fun _ => "") (.start .subscribe 0 false) "tcp://localhost:5559"
    ⟨none, none, none⟩).2

/-- One iteration each. -/
def pair : System Unit :=
  .start bound (fun _ => none) 1 (fun _ => connected) (fun _ _ => none) 1

def publication : Publication := ⟨Fin.last 2, 5, 0, none⟩

/-- A subscriber receives the one message published after it joined. -/
def prompt : List (Event Unit) :=
  [.join (), .publish publication, .receive () ⟨none, .ok 2⟩]

theorem delivery_prompt : ∃ s, run (step (fun _ => "") fun _ => 1) pair prompt = some s ∧
    (s.subscriber ()).pipe.taken = [publication.message] ∧
    (s.subscriber ()).returned.map SendMessage.size = [(publication.message.length : ℤ)] ∧
    s.publisher.impl.queue = [.copied publication.message] := by
  obtain ⟨s, hr, htaken⟩ : ∃ s, run (step (fun _ => "") fun _ => 1) pair prompt = some s ∧
      (s.subscriber ()).pipe.taken = [publication.message] := ⟨_, rfl, rfl⟩
  obtain ⟨hqueue, -, -, -, -, hreturned, -⟩ := delivery hr ()
  exact ⟨s, hr, htaken, by rw [hreturned, htaken]; rfl, hqueue⟩

/-! ## Who comes to the end -/

structure Unfailing (n m : ℕ) (es : List (Event C)) (s : System C) : Prop where
  taken : ∀ c, (s.subscriber c).pipe.taken.length + (s.subscriber c).left = n
  published : (es.flatMap Event.published).length + s.publisher.left = m

theorem unfailing_step {n m : ℕ} {s t : System C} (hok : e.Ok)
    (h : step strerror capacity s e = some t) (hs : Unfailing n m es s) :
    Unfailing n m (es ++ [e]) t := by
  obtain ⟨htaken, hpublished⟩ := hs
  cases e with
  | join c =>
      obtain ⟨-, h⟩ := Option.ite_none_right_eq_some.mp h
      obtain rfl := Option.some.inj h
      refine ⟨fun d => ?_, by simpa [Event.published] using hpublished⟩
      by_cases hd : d = c
      · subst hd
        simpa [Pipe.connect] using htaken d
      · simpa [hd] using htaken d
  | publish it =>
      obtain ⟨p, hp, rfl⟩ := Option.map_eq_some_iff.mp h
      obtain ⟨hleft, hserver, -⟩ := Publisher.iterate_eq_some hp
      refine ⟨fun d => ?_, ?_⟩
      · rw [System.publish_subscriber hp]
        simpa using htaken d
      · have hsent : it.sent = [it.message] := if_pos hok
        simp only [List.flatMap_append, List.flatMap_singleton, Event.published, hsent,
          List.length_append, List.length_singleton, System.publish, hserver]
        omega
  | receive c r =>
      obtain ⟨u, hu, rfl⟩ := Option.map_eq_some_iff.mp h
      refine ⟨fun d => ?_, by simpa [Event.published] using hpublished⟩
      by_cases hd : d = c
      · subst hd
        have hsum := htaken d
        obtain ⟨hleft, hless, ⟨hfails, -⟩ | ⟨-, b, x, htake, -⟩⟩ := Subscriber.iterate_cases hu
        · exact (hfails hok).elim
        · obtain ⟨rest, -, hpipe⟩ := Pipe.take_eq_some htake
          simp only [Function.update_self, hpipe, hless, List.length_append, List.length_singleton]
          omega
      · simpa [hd] using htaken d

/-- A receive of a client that waits for a message, after the publisher's
loop has ended, returns in no continuation without failing calls. -/
theorem left_of_stuck {d : C} {s t : System C} {es : List (Event C)}
    (hserver : s.publisher.left = 0)
    (hstuck : (s.subscriber d).left = 0 ∨ (s.subscriber d).pipe.take = none)
    (hok : ∀ e ∈ es, e.Ok) (hr : run (step strerror capacity) s es = some t) :
    (t.subscriber d).left = (s.subscriber d).left := by
  have hstep : PreservesUnder (step strerror capacity) (fun _ e => e.Ok) fun u : System C =>
      u.publisher.left = 0 ∧ (u.subscriber d).left = (s.subscriber d).left ∧
        ((s.subscriber d).left = 0 ∨ (u.subscriber d).pipe.take = none) := by
    rintro u e v hok h ⟨hserver, hleft, hstuck⟩
    cases e with
    | join c =>
        obtain ⟨-, h⟩ := Option.ite_none_right_eq_some.mp h
        obtain rfl := Option.some.inj h
        refine ⟨hserver, ?_⟩
        by_cases hd : d = c
        · subst hd
          simpa [Pipe.connect, Pipe.take_eq_none, hleft] using hstuck
        · simpa [hd, hleft] using hstuck
    | publish it =>
        obtain ⟨p, hp, -⟩ := Option.map_eq_some_iff.mp h
        exact ((Publisher.iterate_eq_some hp).1 hserver).elim
    | receive c r =>
        obtain ⟨x, hx, rfl⟩ := Option.map_eq_some_iff.mp h
        refine ⟨hserver, ?_⟩
        by_cases hd : d = c
        · subst hd
          obtain ⟨hne, -, ⟨hfails, -⟩ | ⟨-, b, y, htake, -⟩⟩ := Subscriber.iterate_cases hx
          · exact (hfails hok).elim
          · rcases hstuck with hzero | hnone
            · exact (hne (hleft.trans hzero)).elim
            · rw [htake] at hnone
              cases hnone
        · simpa [hd, hleft] using hstuck
  exact (hstep.run (meets_of_forall_mem (fun e he _ => hok e he) s) hr ⟨hserver, rfl, hstuck⟩).2.1

/-- If no call fails and the publisher has come to its end, a subscriber
that cannot receive any more has come to its end exactly when the
publisher's iterations are enough for its own and for the messages it
missed: those published before its subscription came and those dropped.
If they are not it waits for ever. -/
theorem subscriber_ends_iff
    (hr : run (step strerror capacity) (.start server heap m clients heaps n) es = some s)
    (hok : ∀ e ∈ es, e.Ok) (hserver : s.publisher.left = 0) {d : C}
    (hstuck : (s.subscriber d).left = 0 ∨ (s.subscriber d).pipe.take = none) :
    ((s.subscriber d).left = 0 ↔
      n + ((es.flatMap Event.published).length - (since d es).length) +
        (s.subscriber d).pipe.dropped ≤ m) ∧
      ∀ es' t, (∀ e ∈ es', e.Ok) → run (step strerror capacity) s es' = some t →
        (t.subscriber d).left = (s.subscriber d).left := by
  refine ⟨?_, fun es' t hok' ht => left_of_stuck hserver hstuck hok' ht⟩
  obtain ⟨haccounts, -, hdue, -⟩ := (inv_of_run hr).subscriber d
  have hunfailing : (∀ e ∈ es, e.Ok) → Unfailing n m es s :=
    run_history (P := fun es s => (∀ e ∈ es, e.Ok) → Unfailing n m es s) hr
      (fun _ => ⟨fun _ => Nat.zero_add n, Nat.zero_add m⟩)
      fun es e s t hs h hok => unfailing_step (hok e (by simp)) h
        (hs fun e' he => hok e' (List.mem_append_left _ he))
  obtain ⟨htaken, hpublished⟩ := hunfailing hok
  have htaken := htaken d
  have hlength := haccounts.length
  have hsuffix := (since_suffix d es).length_le
  rw [hserver] at hpublished
  rw [hdue] at hlength
  constructor
  · intro hleft
    omega
  · intro hle
    rcases hstuck with hleft | hnone
    · exact hleft
    · rw [Pipe.take_eq_none.mp hnone, List.length_nil] at hlength
      omega

/-- The subscription comes after the only message. -/
def late : List (Event Unit) := [.publish publication, .join ()]

theorem subscriber_ends_iff_late : ∃ s,
    run (step (fun _ => "") fun _ => 1) pair late = some s ∧ (s.subscriber ()).left = 1 ∧
      ∀ es t, (∀ e ∈ es, e.Ok) → run (step (fun _ => "") fun _ => 1) s es = some t →
        (t.subscriber ()).left = 1 := by
  obtain ⟨s, hr, hserver, hstuck, hone⟩ : ∃ s,
      run (step (fun _ => "") fun _ => 1) pair late = some s ∧ s.publisher.left = 0 ∧
      (s.subscriber ()).pipe.take = none ∧ (s.subscriber ()).left = 1 := ⟨_, rfl, rfl, rfl, rfl⟩
  have hok : ∀ e ∈ late, e.Ok := by simp [late, Event.Ok, publication]
  obtain ⟨-, hwaits⟩ := subscriber_ends_iff hr hok hserver (.inr hstuck)
  exact ⟨s, hr, hone, fun es t hes ht => (hwaits es t hes ht).trans hone⟩

end

end PubSub

end ZeromqAgent
