import ZeromqAgent.Zmq

/-!
# Setting up the brokers

`bind` of the two broker classes, with their members. `BrokerPublisherImpl`
declares locals with the names of its members in `bind`, so that the
sockets it opens are not kept.
-/

namespace ZeromqAgent

structure Broker where
  context : Context
  backend : Handle
  frontend : Handle
  strError : String

/-- The outcomes of the four calls of `bind`, in the order of the calls. -/
structure BrokerCalls where
  socketFrontend : Option Errno
  socketBackend : Option Errno
  attachFrontend : Option Errno
  bindBackend : Option Errno

variable (strerror : Errno → String)

namespace Broker

def fail (b : Broker) (e : Errno) : Broker := { b with strError := strerror e }

/-- The constructor, which leaves the handles as it finds them. -/
def start (junkBackend junkFrontend : Handle) : Broker := ⟨.new, junkBackend, junkFrontend, ""⟩

end Broker

namespace BrokerImpl

open Broker

def bind (b : Broker) (backend frontend : String) (r : BrokerCalls) : ErrorType × Broker :=
  match b.context.socket .router r.socketFrontend with
  | (.error e, ctx) => (.notOk, { b with context := ctx, frontend := 0 }.fail strerror e)
  | (.ok h, ctx) =>
  let b := { b with context := ctx, frontend := h }
  match b.context.socket .dealer r.socketBackend with
  | (.error e, ctx) => (.notOk, { b with context := ctx, backend := 0 }.fail strerror e)
  | (.ok h, ctx) =>
  let b := { b with context := ctx, backend := h }
  match b.context.bind b.frontend frontend r.attachFrontend with
  | (some e, ctx) => (.notOk, { b with context := ctx }.fail strerror e)
  | (none, ctx) =>
  let b := { b with context := ctx }
  match b.context.bind b.backend backend r.bindBackend with
  | (some e, ctx) => (.notOk, { b with context := ctx }.fail strerror e)
  | (none, ctx) => (.ok, { b with context := ctx })

end BrokerImpl

namespace BrokerPublisherImpl

open Broker

def bind (b : Broker) (backend frontend : String) (r : BrokerCalls) : ErrorType × Broker :=
  match b.context.socket .xsub r.socketFrontend with
  | (.error e, ctx) => (.notOk, { b with context := ctx }.fail strerror e)
  | (.ok mFrontend, ctx) =>
  let b := { b with context := ctx }
  match b.context.socket .xpub r.socketBackend with
  | (.error e, ctx) => (.notOk, { b with context := ctx }.fail strerror e)
  | (.ok mBackend, ctx) =>
  let b := { b with context := ctx }
  match b.context.connect mFrontend frontend r.attachFrontend with
  | (some e, ctx) => (.notOk, { b with context := ctx }.fail strerror e)
  | (none, ctx) =>
  let b := { b with context := ctx }
  match b.context.bind mBackend backend r.bindBackend with
  | (some e, ctx) => (.notOk, { b with context := ctx }.fail strerror e)
  | (none, ctx) => (.ok, { b with context := ctx })

end BrokerPublisherImpl

/-! ## What the two have in common -/

/-- The two classes that implement `IBroker`. -/
inductive BrokerClass where
  | broker
  | publisher
  deriving DecidableEq

structure BindArgs where
  backend : String
  frontend : String
  calls : BrokerCalls

namespace BrokerClass

def bind : BrokerClass → Broker → BindArgs → ErrorType × Broker
  | .broker, b, c => BrokerImpl.bind strerror b c.backend c.frontend c.calls
  | .publisher, b, c => BrokerPublisherImpl.bind strerror b c.backend c.frontend c.calls

def frontendKind : BrokerClass → SocketKind
  | .broker => .router
  | .publisher => .xsub

def backendKind : BrokerClass → SocketKind
  | .broker => .dealer
  | .publisher => .xpub

/-- The call that attaches the frontend. -/
def attach : BrokerClass → Context → Handle → String → Option Errno → Option Errno × Context
  | .broker => Context.bind
  | .publisher => Context.connect

/-- The calls of a `bind`, with the `errno` of the one that fails. -/
def setUp (k : BrokerClass) (ctx : Context) (c : BindArgs) : Option Errno × Context :=
  match ctx.socket k.frontendKind c.calls.socketFrontend with
  | (.error e, ctx) => (some e, ctx)
  | (.ok frontend, ctx) =>
  match ctx.socket k.backendKind c.calls.socketBackend with
  | (.error e, ctx) => (some e, ctx)
  | (.ok backend, ctx) =>
  match k.attach ctx frontend c.frontend c.calls.attachFrontend with
  | (some e, ctx) => (some e, ctx)
  | (none, ctx) => ctx.bind backend c.backend c.calls.bindBackend

/-- The members for the backend and the frontend after a `bind`. -/
def members : BrokerClass → Broker → BindArgs → Handle × Handle
  | .publisher, b, _ => (b.backend, b.frontend)
  | .broker, b, c =>
      match b.context.socket .router c.calls.socketFrontend with
      | (.error _, _) => (b.backend, 0)
      | (.ok frontend, ctx) =>
      match ctx.socket .dealer c.calls.socketBackend with
      | (.error _, _) => (0, frontend)
      | (.ok backend, _) => (backend, frontend)

/-- The error string enters the result of a `bind` only where it is kept. -/
theorem bind_eq (k : BrokerClass) (b : Broker) (c : BindArgs) :
    k.bind strerror b c = ((k.setUp b.context c).1.elim .ok (fun _ => .notOk),
      { context := (k.setUp b.context c).2
        backend := (k.members b c).1
        frontend := (k.members b c).2
        strError := (k.setUp b.context c).1.elim b.strError strerror }) := by
  cases k with
  | broker =>
      simp only [bind, BrokerImpl.bind, setUp, members, frontendKind, backendKind, attach]
      rcases b.context.socket .router c.calls.socketFrontend with ⟨_ | f, ctx⟩
      · rfl
      · dsimp only
        rcases ctx.socket .dealer c.calls.socketBackend with ⟨_ | g, ctx⟩
        · rfl
        · dsimp only
          rcases ctx.bind f c.frontend c.calls.attachFrontend with ⟨_ | e, ctx⟩
          · dsimp only
            rcases ctx.bind g c.backend c.calls.bindBackend with ⟨_ | e, ctx⟩ <;> rfl
          · rfl
  | publisher =>
      simp only [bind, BrokerPublisherImpl.bind, setUp, members, frontendKind, backendKind, attach]
      rcases b.context.socket .xsub c.calls.socketFrontend with ⟨_ | f, ctx⟩
      · rfl
      · dsimp only
        rcases ctx.socket .xpub c.calls.socketBackend with ⟨_ | g, ctx⟩
        · rfl
        · dsimp only
          rcases ctx.connect f c.frontend c.calls.attachFrontend with ⟨_ | e, ctx⟩
          · dsimp only
            rcases ctx.bind g c.backend c.calls.bindBackend with ⟨_ | e, ctx⟩ <;> rfl
          · rfl

/-- What a `bind` does apart from the handles it keeps. -/
theorem setUp_of_bind (k : BrokerClass) (b : Broker) (c : BindArgs) :
    (k.bind strerror b c).1 = (k.setUp b.context c).1.elim .ok (fun _ => .notOk) ∧
      (k.bind strerror b c).2.context = (k.setUp b.context c).2 ∧
      (k.bind strerror b c).2.strError = (k.setUp b.context c).1.elim b.strError strerror := by
  rw [bind_eq]
  exact ⟨rfl, rfl, rfl⟩

theorem open_of_attach {k : BrokerClass} {ctx ctx' : Context} {h i : Handle} {url : String}
    {r x : Option Errno} (ha : k.attach ctx h url r = (x, ctx')) (hi : ctx.sockets i ≠ none) :
    ctx'.sockets i ≠ none := by
  cases k with
  | broker => exact Context.open_of_bind ha hi
  | publisher => exact Context.open_of_connect ha hi

/-- Once its first call has succeeded a `bind` leaves that socket open. -/
theorem opens (k : BrokerClass) (b : Broker) {c : BindArgs} (h : c.calls.socketFrontend = none) :
    (k.bind strerror b c).2.context.sockets (b.context.created + 1) ≠ none := by
  rw [(setUp_of_bind strerror k b c).2.1]
  unfold setUp
  split
  · next e ctx hs => simp [Context.socket, h] at hs
  · next f ctx hs =>
      have hopen := Context.open_of_created hs
      split
      · next e ctx hs => exact Context.open_of_socket hs hopen
      · next g ctx hs =>
          have hopen := Context.open_of_socket hs hopen
          split
          · next e ctx ha => exact open_of_attach ha hopen
          · next ctx ha => exact Context.open_of_bind rfl (open_of_attach ha hopen)

end BrokerClass

end ZeromqAgent
