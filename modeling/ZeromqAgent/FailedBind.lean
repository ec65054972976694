import ZeromqAgent.BrokerApi
import ZeromqAgent.ClientServer

/-!
# Failed attempts to connect or bind

Four operations set up the sockets of an object. When one of them returns
`NOT_OK` the object should be as it was but for its error string. It is in
one case only: the first `zmq_socket` failed, and the handle that the
source overwrites with its result was null before.
-/

namespace ZeromqAgent

open Transition

/-- A context with a socket open beyond those that this one returned is not
the same to the objects that use it. -/
theorem Context.sockets_ne_of_open {ctx ctx' : Context}
    (h : ctx'.sockets (ctx.created + 1) ≠ none) : ctx'.sockets ≠ ctx.sockets := by
  intro heq
  rw [heq] at h
  exact h (ctx.fresh _ (Nat.lt_succ_self _))

/-! ## Operations that may fail -/

/-- The open sockets with their endpoints, and the handles that the object uses. -/
structure Footprint where
  sockets : Handle → Option Socket
  handles : List Handle

structure Operation (σ ρ : Type) where
  call : σ → ρ → ErrorType × σ
  footprint : σ → Footprint

namespace Operation

variable {σ ρ : Type}

/-- The attempts that return `NOT_OK`, as the steps of a machine. -/
def failing (o : Operation σ ρ) (s : σ) (r : ρ) : Option σ :=
  if (o.call s r).1 = .notOk then some (o.call s r).2 else none

/-- A failed attempt leaves the object as it was exactly when the condition
holds; after any number of such attempts, the next one is like a first. -/
def RestoresWhen (o : Operation σ ρ) (P : σ → ρ → Prop) : Prop :=
  (∀ s r t, o.failing s r = some t → (o.footprint t = o.footprint s ↔ P s r)) ∧
    ∀ s rs t r, Meets o.failing P s rs → run o.failing s rs = some t →
      (o.call t r).1 = (o.call s r).1 ∧
        o.footprint (o.call t r).2 = o.footprint (o.call s r).2

/-- It is enough that the outcome of the first call decides: where it
succeeds a socket is left open, and where it fails nothing changes but the
error string and handles that may have been null before. -/
theorem restoresWhen_of_first {o : Operation σ ρ} (quiet : σ → σ) {first : ρ → Option Errno}
    {nulled : σ → Prop}
    (hcall : ∀ s r, (o.call (quiet s) r).1 = (o.call s r).1 ∧
      o.footprint (o.call (quiet s) r).2 = o.footprint (o.call s r).2)
    (hopens : ∀ s r, first r = none → o.footprint (o.call s r).2 ≠ o.footprint s)
    (hnulled : ∀ s r, first r ≠ none → (o.footprint (o.call s r).2 = o.footprint s ↔ nulled s))
    (hquiet : ∀ s r, first r ≠ none → nulled s → quiet (o.call s r).2 = quiet s) :
    o.RestoresWhen fun s r => first r ≠ none ∧ nulled s := by
  constructor
  · intro s r t h
    obtain ⟨-, rfl⟩ := Option.ite_none_right_eq_some.mp h |>.imp id Option.some.inj
    cases hr : first r with
    | none => simpa [hr] using hopens s r hr
    | some e => simpa [hr] using hnulled s r (by simp [hr])
  · intro s rs t r hm hr
    have hkeep : PreservesUnder o.failing (fun s r => first r ≠ none ∧ nulled s)
        fun u => quiet u = quiet s := by
      intro u a v hP hstep hu
      obtain ⟨-, rfl⟩ := Option.ite_none_right_eq_some.mp hstep |>.imp id Option.some.inj
      exact (hquiet u a hP.1 hP.2).trans hu
    have ht := hcall t r
    have hs := hcall s r
    rw [hkeep.run hm hr rfl] at ht
    exact ⟨ht.1.symm.trans hs.1, ht.2.symm.trans hs.2⟩

end Operation

/-! ## The four operations -/

def Impl.footprint (c : Impl) : Footprint := ⟨c.context.sockets, [c.socket]⟩

def Broker.footprint (b : Broker) : Footprint := ⟨b.context.sockets, [b.backend, b.frontend]⟩

def Impl.quiet (c : Impl) : Impl := { c with strError := "" }

def Broker.quiet (b : Broker) : Broker := { b with strError := "" }

variable (strerror : Errno → String)

def connectOperation (url : String) : Operation Impl ConnectCalls :=
  ⟨fun c r => ClientImpl.connect strerror c url r, Impl.footprint⟩

def bindOperation (url : String) : Operation Impl BindCalls :=
  ⟨fun c r => ServerImpl.bind strerror c url r, Impl.footprint⟩

def brokerOperation (backend frontend : String) : Operation Broker BrokerCalls :=
  ⟨fun b r => BrokerImpl.bind strerror b backend frontend r, Broker.footprint⟩

def publisherOperation (backend frontend : String) : Operation Broker BrokerCalls :=
  ⟨fun b r => BrokerPublisherImpl.bind strerror b backend frontend r, Broker.footprint⟩

theorem Impl.footprint_ne {c c' : Impl}
    (h : c'.context.sockets (c.context.created + 1) ≠ none) : c'.footprint ≠ c.footprint :=
  fun heq => Context.sockets_ne_of_open h (congrArg Footprint.sockets heq)

theorem Broker.footprint_ne {b b' : Broker}
    (h : b'.context.sockets (b.context.created + 1) ≠ none) : b'.footprint ≠ b.footprint :=
  fun heq => Context.sockets_ne_of_open h (congrArg Footprint.sockets heq)

theorem open_of_createSocket {c c' : Impl} {x : Option Errno} {r : Option Errno} (hr : r = none)
    (hs : c.createSocket r = (x, c')) : c'.context.sockets (c.context.created + 1) ≠ none := by
  subst hr
  obtain ⟨-, rfl⟩ := Prod.mk.inj hs
  exact Context.open_of_created (show c.context.socket (Impl.kind c.type) none = _ from rfl)

theorem connect_opens (c : Impl) (url : String) {r : ConnectCalls} (h : r.socket = none) :
    (ClientImpl.connect strerror c url r).2.context.sockets (c.context.created + 1) ≠ none := by
  unfold ClientImpl.connect
  split
  · next e c' hs =>
      have hopen := open_of_createSocket h hs
      exact hopen
  · next c' hs =>
      have hopen := open_of_createSocket h hs
      split
      · next e ctx hc => exact Context.open_of_connect hc hopen
      · next ctx hc =>
          have hopen := Context.open_of_connect hc hopen
          dsimp only
          split
          · cases r.setsockopt <;> exact hopen
          · exact hopen

theorem bind_opens (c : Impl) (url : String) {r : BindCalls} (h : r.socket = none) :
    (ServerImpl.bind strerror c url r).2.context.sockets (c.context.created + 1) ≠ none := by
  unfold ServerImpl.bind
  split
  · next e c' hs =>
      have hopen := open_of_createSocket h hs
      exact hopen
  · next c' hs =>
      have hopen := open_of_createSocket h hs
      split
      · next e ctx hb => exact Context.open_of_bind hb hopen
      · next ctx hb => exact Context.open_of_bind hb hopen

/-! ## The error string does not matter -/

theorem connect_quiet (url : String) (c : Impl) (r : ConnectCalls) :
    (ClientImpl.connect strerror c.quiet url r).1 = (ClientImpl.connect strerror c url r).1 ∧
      (ClientImpl.connect strerror c.quiet url r).2.footprint =
        (ClientImpl.connect strerror c url r).2.footprint := by
  obtain ⟨socket, connect, setsockopt⟩ := r
  cases socket with
  | some e => exact ⟨rfl, rfl⟩
  | none =>
      cases connect with
      | some e => exact ⟨rfl, rfl⟩
      | none =>
          obtain ⟨ctx, h, type, m, err⟩ := c
          cases type <;> cases setsockopt <;> exact ⟨rfl, rfl⟩

theorem bind_quiet (url : String) (c : Impl) (r : BindCalls) :
    (ServerImpl.bind strerror c.quiet url r).1 = (ServerImpl.bind strerror c url r).1 ∧
      (ServerImpl.bind strerror c.quiet url r).2.footprint =
        (ServerImpl.bind strerror c url r).2.footprint := by
  simp only [ServerImpl.bind, Impl.createSocket, Impl.quiet]
  rcases hs : c.context.socket (Impl.kind c.type) r.socket with ⟨_ | h, ctx⟩
  · exact ⟨rfl, rfl⟩
  · dsimp only
    rcases hb : ctx.bind h url r.bind with ⟨_ | e, ctx⟩ <;> exact ⟨rfl, rfl⟩

theorem BrokerClass.bind_quiet (k : BrokerClass) (b : Broker) (c : BindArgs) :
    (k.bind strerror b.quiet c).1 = (k.bind strerror b c).1 ∧
      (k.bind strerror b.quiet c).2.footprint = (k.bind strerror b c).2.footprint := by
  have hmembers : k.members b.quiet c = k.members b c := by cases k <;> rfl
  rw [k.bind_eq strerror b.quiet, k.bind_eq strerror b, hmembers]
  exact ⟨rfl, rfl⟩

/-! ## When the object is as it was -/

theorem connect_restores (url : String) : (connectOperation strerror url).RestoresWhen
    fun c r => r.socket ≠ none ∧ c.socket = 0 := by
  refine Operation.restoresWhen_of_first Impl.quiet (connect_quiet strerror url)
    (fun c r h => Impl.footprint_ne (connect_opens strerror c url h)) ?_ ?_
  · rintro c ⟨_ | e, connect, setsockopt⟩ h
    · exact (h rfl).elim
    · simp [connectOperation, ClientImpl.connect, Impl.createSocket, Context.socket, Impl.fail,
        Impl.footprint, eq_comm]
  · rintro c ⟨_ | e, connect, setsockopt⟩ h hnull
    · exact (h rfl).elim
    · simp [connectOperation, ClientImpl.connect, Impl.createSocket, Context.socket, Impl.fail,
        Impl.quiet, hnull]

theorem bind_restores (url : String) : (bindOperation strerror url).RestoresWhen
    fun c r => r.socket ≠ none ∧ c.socket = 0 := by
  refine Operation.restoresWhen_of_first Impl.quiet (bind_quiet strerror url)
    (fun c r h => Impl.footprint_ne (bind_opens strerror c url h)) ?_ ?_
  · rintro c ⟨_ | e, bind⟩ h
    · exact (h rfl).elim
    · simp [bindOperation, ServerImpl.bind, Impl.createSocket, Context.socket, Impl.fail,
        Impl.footprint, eq_comm]
  · rintro c ⟨_ | e, bind⟩ h hnull
    · exact (h rfl).elim
    · simp [bindOperation, ServerImpl.bind, Impl.createSocket, Context.socket, Impl.fail,
        Impl.quiet, hnull]

theorem broker_restores (backend frontend : String) :
    (brokerOperation strerror backend frontend).RestoresWhen
      fun b r => r.socketFrontend ≠ none ∧ b.frontend = 0 := by
  refine Operation.restoresWhen_of_first Broker.quiet
    (fun b r => BrokerClass.broker.bind_quiet strerror b ⟨backend, frontend, r⟩)
    (fun b r h => Broker.footprint_ne
      (BrokerClass.broker.opens strerror b (c := ⟨backend, frontend, r⟩) h)) ?_ ?_
  · rintro b ⟨_ | e, socketBackend, attachFrontend, bindBackend⟩ h
    · exact (h rfl).elim
    · simp [brokerOperation, BrokerImpl.bind, Context.socket, Broker.fail, Broker.footprint,
        eq_comm]
  · rintro b ⟨_ | e, socketBackend, attachFrontend, bindBackend⟩ h hnull
    · exact (h rfl).elim
    · simp [brokerOperation, BrokerImpl.bind, Context.socket, Broker.fail, Broker.quiet, hnull]

theorem publisher_restores (backend frontend : String) :
    (publisherOperation strerror backend frontend).RestoresWhen
      fun _ r => r.socketFrontend ≠ none := by
  have hrestores : (publisherOperation strerror backend frontend).RestoresWhen
      fun _ r => r.socketFrontend ≠ none ∧ True := by
    refine Operation.restoresWhen_of_first Broker.quiet
      (fun b r => BrokerClass.publisher.bind_quiet strerror b ⟨backend, frontend, r⟩)
      (fun b r h => Broker.footprint_ne
        (BrokerClass.publisher.opens strerror b (c := ⟨backend, frontend, r⟩) h)) ?_ ?_
    · rintro b ⟨_ | e, socketBackend, attachFrontend, bindBackend⟩ h
      · exact (h rfl).elim
      · simp [publisherOperation, BrokerPublisherImpl.bind, Context.socket, Broker.fail,
          Broker.footprint]
    · rintro b ⟨_ | e, socketBackend, attachFrontend, bindBackend⟩ h -
      · exact (h rfl).elim
      · simp [publisherOperation, BrokerPublisherImpl.bind, Context.socket, Broker.fail,
          Broker.quiet]
  simpa using hrestores

/-- Each operation, where it fails, restores the object exactly when its
first `zmq_socket` failed and the handle assigned from it was null. -/
theorem failed_bind_restores (url backend frontend : String) :
    (connectOperation strerror url).RestoresWhen
        (fun c r => r.socket ≠ none ∧ c.socket = 0) ∧
      (bindOperation strerror url).RestoresWhen
        (fun c r => r.socket ≠ none ∧ c.socket = 0) ∧
      (brokerOperation strerror backend frontend).RestoresWhen
        (fun b r => r.socketFrontend ≠ none ∧ b.frontend = 0) ∧
      (publisherOperation strerror backend frontend).RestoresWhen
        (fun _ r => r.socketFrontend ≠ none) :=
  ⟨connect_restores strerror url, bind_restores strerror url,
    broker_restores strerror backend frontend, publisher_restores strerror backend frontend⟩

theorem failed_bind_restores_null : ∃ t,
    (connectOperation (fun _ => "") "url").failing (Impl.start .request 0 false)
        ⟨some .eintr, none, none⟩ = some t ∧
      t.footprint = (Impl.start .request 0 false).footprint := by
  refine ⟨_, rfl, ?_⟩
  have h := (failed_bind_restores (fun _ => "") "url" "backend" "frontend").1.1
    (Impl.start .request 0 false) ⟨some .eintr, none, none⟩ _ rfl
  exact h.mpr ⟨by decide, rfl⟩

/-- The backend endpoint is not available at the first attempt; the second
one finds the frontend endpoint taken by the socket that the first left. -/
theorem failed_bind_leaves_frontend : ¬ ∀ (strerror : Errno → String) (backend frontend : String)
    (b t : Broker) (r : BrokerCalls),
    Reaches (brokerOperation strerror backend frontend).failing (Broker.start 0 0) b →
      (brokerOperation strerror backend frontend).failing b r = some t →
        t.footprint = b.footprint ∧ ∀ r', (BrokerImpl.bind strerror t backend frontend r').1 =
          (BrokerImpl.bind strerror b backend frontend r').1 := by
  intro h
  have hretry := (h (fun _ => "") "backend" "frontend" (Broker.start 0 0) _
    ⟨none, none, none, some (.other 99)⟩ (Reaches.refl _ _) rfl).2 ⟨none, none, none, none⟩
  revert hretry
  decide

end ZeromqAgent
