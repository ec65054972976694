import ZeromqAgent.RelayFidelity

/-!
# Clients, broker and workers

The request loops of the test program around the broker: any number of
clients that send and then receive on a REQ socket, the relay loop
between a ROUTER and a DEALER socket, and any number of workers that
receive and then send on a REP socket. The socket patterns are libzmq's
documented ones. A connection is a queue of whole messages. The DEALER
socket hands the messages completed on the backend, in order, to a worker
of its choice; the ROUTER socket routes those completed on the frontend.
The loops send bodies of one part, which is the part `receive` returns.
-/

namespace ZeromqAgent.RequestReply

open BrokerLoop Framing Transition

/-! ## The socket patterns -/

/-- What the ROUTER socket knows about its peers. Identities are not
empty, and the routing table finds the peer with a given identity. -/
structure Routing (C : Type) where
  ident : C → Bytes
  peer : Bytes → Option C
  ident_ne_nil : ∀ c, ident c ≠ []
  peer_ident : ∀ c, peer (ident c) = some c

theorem Routing.ident_injective {C : Type} (net : Routing C) : Function.Injective net.ident := by
  intro c c' h
  have hpeer := congrArg net.peer h
  rw [net.peer_ident, net.peer_ident] at hpeer
  exact Option.some.inj hpeer

def reqSend (body : Bytes) : List Bytes := [[], body]

def reqReceive : List Bytes → Option Bytes
  | [] :: body :: _ => some body
  | _ => none

/-- A REP socket keeps the parts up to the empty delimiter and shows the rest. -/
def repReceive : List Bytes → Option (List Bytes × List Bytes)
  | [] => none
  | [] :: body => some ([[]], body)
  | (b :: id) :: parts => (repReceive parts).map fun r => ((b :: id) :: r.1, r.2)

def repSend (envelope : List Bytes) (body : Bytes) : Multipart := ⟨envelope ++ [body], by simp⟩

def routerReceive (id : Bytes) (parts : List Bytes) : Multipart := ⟨id :: parts, by simp⟩

theorem repReceive_ident {id : Bytes} (hid : id ≠ []) (body : List Bytes) :
    repReceive (id :: [] :: body) = some ([id, []], body) := by
  cases id with
  | nil => exact (hid rfl).elim
  | cons b id => rfl

/-! ## The system -/

structure Handed (W : Type) where
  worker : W
  envelope : List Bytes
  body : Bytes

/-- The clients' and workers' loops, the broker and the connections.
`dealt` and `routed` count the completed messages that have left the
broker. `sent`, `handed` and `taken` are history. -/
structure System (C W : Type) where
  broker : Loop
  dealt : ℕ
  routed : ℕ
  waiting : C → Bool
  serving : W → Option (List Bytes × Bytes)
  toRouter : C → List (List Bytes)
  toWorker : W → List (List Bytes)
  toDealer : W → List Multipart
  toClient : C → List (List Bytes)
  sent : C → List Bytes
  handed : List (Handed W)
  taken : C → List Bytes

def System.start {C W : Type} : System C W where
  broker := .start
  dealt := 0
  routed := 0
  waiting := fun _ => false
  serving := fun _ => none
  toRouter := fun _ => []
  toWorker := fun _ => []
  toDealer := fun _ => []
  toClient := fun _ => []
  sent := fun _ => []
  handed := []
  taken := fun _ => []

/-- `send` and `receive` are the calls of a client's loop, `take` and
`answer` those of a worker's; `relay` is a step of the broker, and the
others move a message along a connection or out of a socket. -/
inductive Event (C W : Type) where
  | send (c : C) (request : Bytes)
  | uplink (c : C)
  | relay
  | deal (w : W)
  | take (w : W)
  | answer (w : W)
  | downlink (w : W)
  | route
  | receive (c : C)

variable {C W : Type} [DecidableEq C] [DecidableEq W]

/-- The message goes to the peer its first part names; one that names no
peer is dropped. -/
def routerSend (net : Routing C) (q : C → List (List Bytes)) : List Bytes → C → List (List Bytes)
  | [] => q
  | id :: parts =>
      match net.peer id with
      | none => q
      | some c => Function.update q c (q c ++ [parts])

def step (net : Routing C) (answer : W → Bytes → Bytes) (s : System C W) :
    Event C W → Option (System C W)
  | .send c request =>
      if s.waiting c then none
      else some { s with
        waiting := Function.update s.waiting c true
        toRouter := Function.update s.toRouter c (s.toRouter c ++ [reqSend request])
        sent := Function.update s.sent c (s.sent c ++ [request]) }
  | .uplink c =>
      match s.toRouter c with
      | [] => none
      | m :: rest => some { s with
          toRouter := Function.update s.toRouter c rest
          broker := s.broker.arrive .frontend (routerReceive (net.ident c) m) }
  | .relay => (BrokerLoop.step s.broker .call).map fun b => { s with broker := b }
  | .deal w =>
      match (messages (s.broker.sent .backend))[s.dealt]? with
      | none => none
      | some m => some { s with
          dealt := s.dealt + 1
          toWorker := Function.update s.toWorker w (s.toWorker w ++ [m]) }
  | .take w =>
      match s.serving w, s.toWorker w with
      | none, m :: rest =>
          match repReceive m with
          | some (envelope, body :: _) => some { s with
              serving := Function.update s.serving w (some (envelope, body))
              toWorker := Function.update s.toWorker w rest
              handed := s.handed ++ [⟨w, envelope, body⟩] }
          | _ => none
      | _, _ => none
  | .answer w =>
      match s.serving w with
      | none => none
      | some (envelope, body) => some { s with
          serving := Function.update s.serving w none
          toDealer := Function.update s.toDealer w
            (s.toDealer w ++ [repSend envelope (answer w body)]) }
  | .downlink w =>
      match s.toDealer w with
      | [] => none
      | m :: rest => some { s with
          toDealer := Function.update s.toDealer w rest
          broker := s.broker.arrive .backend m }
  | .route =>
      match (messages (s.broker.sent .frontend))[s.routed]? with
      | none => none
      | some m => some { s with
          routed := s.routed + 1
          toClient := routerSend net s.toClient m }
  | .receive c =>
      match s.waiting c, s.toClient c with
      | true, m :: rest =>
          (reqReceive m).map fun body => { s with
            waiting := Function.update s.waiting c false
            toClient := Function.update s.toClient c rest
            taken := Function.update s.taken c (s.taken c ++ [body]) }
      | _, _ => none

def handedTo (net : Routing C) (s : System C W) (c : C) : List (W × Bytes) :=
  s.handed.filterMap fun h =>
    if h.envelope = [net.ident c, []] then some (h.worker, h.body) else none

end ZeromqAgent.RequestReply
