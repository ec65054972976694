import ZeromqAgent.BrokerLoop
import ZeromqAgent.FailedBind

/-!
# The life of a broker

Any number of `bind` calls of which the last returns `OK`, then
`start_loop`, then the destructor. `start_loop` and the destructor work on
the members that hold the two handles. `Broker` assigns them in `bind`, so
that it relays between the sockets of its last `bind` and loses those of an
earlier one; `BrokerPublisher` never assigns them.
-/

namespace ZeromqAgent

open Transition Handles BrokerLoop

variable (strerror : Errno → String)

def BrokerClass.bindAll (k : BrokerClass) (b : Broker) (cs : List BindArgs) : Broker :=
  cs.foldl (fun b c => (k.bind strerror b c).2) b

/-! ## The loops and the destructor -/

def bySide (frontend backend : Handle) : Side → Handle
  | .frontend => frontend
  | .backend => backend

def Broker.handle (b : Broker) : Side → Handle := bySide b.frontend b.backend

namespace BrokerImpl

def sendFlags (more : Bool) : Flags := if more then .sndmore else .none

/-- The calls on sockets by which the loop goes on from a state. -/
def loopCalls (b : Broker) (s : Loop) : Action → List Call
  | .arrive _ _ => []
  | .call | .fail =>
      match s.pc with
      | .poll => [.poll b.frontend, .poll b.backend]
      | .recv d => [.msgRecv (b.handle d) .none]
      | .send d more => [.msgSend (b.handle d.other) (sendFlags more)]
      | _ => []

def loopStep (b : Broker) (p : Context × Loop) (a : Action) : Option (Context × Loop) :=
  (BrokerLoop.step p.2 a).map fun s =>
    ({ p.1 with calls := p.1.calls ++ loopCalls b p.2 a }, s)

/-- The state in which the loop is left by some sequence of actions. -/
def startLoop (b : Broker) (as : List Action) : Option Broker :=
  (run (loopStep b) (b.context, .start) as).map fun p => { b with context := p.1 }

end BrokerImpl

def BrokerPublisherImpl.startLoop (b : Broker) (r : Option Errno) : Broker :=
  let b := { b with context := (b.context.call (.proxy b.frontend)).call (.proxy b.backend) }
  match r with
  | some e => b.fail strerror e
  | none => b

def BrokerClass.startLoop (k : BrokerClass) (b : Broker) (as : List Action) (r : Option Errno) :
    Option Broker :=
  match k with
  | .broker => BrokerImpl.startLoop b as
  | .publisher => some (BrokerPublisherImpl.startLoop strerror b r)

/-- The destructor of either class. -/
def Broker.destroy (b : Broker) : Broker :=
  { b with context := ((b.context.close b.backend).close b.frontend).destroy }

def Context.trace (ctx : Context) : List (Event Handle) := ctx.calls.map Call.event

def BrokerClass.frontendSocket (url : String) : BrokerClass → Socket
  | .broker => ⟨.router, [.bound url]⟩
  | .publisher => ⟨.xsub, [.connected url]⟩

def BrokerClass.backendSocket (url : String) : BrokerClass → Socket
  | .broker => ⟨.dealer, [.bound url]⟩
  | .publisher => ⟨.xpub, [.bound url]⟩

/-- The flags of a send on a socket. -/
def Call.sendOn (h : Handle) : Call → Option Flags
  | .msgSend g flags => if g = h then some flags else none
  | _ => none

/-- Whether the loop can still pass on a message of the side before it polls
again. -/
def BrokerLoop.Pc.due : Pc → Side → ℕ
  | .poll, _ => 0
  | .check d, e | .init d, e | .recv d, e | .more d, e | .send d _, e | .close d _, e =>
      if d = .frontend ∨ e = .backend then 1 else 0

/-- The calls of a loop that relays between two sockets, with what it has
received, sent and passed on so far. A call that fails counts too. -/
structure Relays (handle : Side → Handle) (as : List BrokerLoop.Action) (s : Loop)
    (us : List Call) : Prop where
  only : ∀ u ∈ us, ∃ d, u = .poll (handle d) ∨ u = .msgRecv (handle d) .none ∨
    ∃ more, u = .msgSend (handle d) (BrokerImpl.sendFlags more)
  polled : ∀ d, us.count (.poll (handle d)) = us.count (.poll (handle d.other))
  passed : ∀ d, (s.passes d).length + s.pc.due d ≤ us.count (.poll (handle d))
  received : ∀ d, (s.received d).length ≤ us.count (.msgRecv (handle d) .none)
  sent : ∀ d, ((s.sent d).map fun p => BrokerImpl.sendFlags p.2).Sublist
    (us.filterMap (Call.sendOn (handle d)))
  exact : .fail ∉ as → ∀ d, (s.received d).length = us.count (.msgRecv (handle d) .none) ∧
    ((s.sent d).map fun p => BrokerImpl.sendFlags p.2) = us.filterMap (Call.sendOn (handle d))

/-- The calls of `start_loop` when it relays between the two handles. -/
def BrokerClass.Between (k : BrokerClass) (frontend backend : Handle)
    (as : List BrokerLoop.Action) (us : List Call) : Prop :=
  match k with
  | .broker => ∃ s, run BrokerLoop.step .start as = some s ∧
      Relays (bySide frontend backend) as s us
  | .publisher => us = [.proxy frontend, .proxy backend]

/-- The loop relays between the two sockets that the last `bind` got from
`zmq_socket`, and these are attached to its endpoints. -/
structure BrokerClass.Wired (k : BrokerClass) (before b b' : Broker) (c : BindArgs)
    (as : List BrokerLoop.Action) : Prop where
  frontendSocket : b.context.sockets (before.context.created + 1) =
    some (k.frontendSocket c.frontend)
  backendSocket : b.context.sockets (before.context.created + 2) =
    some (k.backendSocket c.backend)
  between : ∃ us, b'.context.calls = b.context.calls ++ us ∧
    k.Between (before.context.created + 1) (before.context.created + 2) as us

/-! ## What a bind does to the context -/

/-- Every handle was used while it was open, and none was closed. -/
def Context.InOrder (ctx : Context) : Prop := audit ctx.trace = some (handlesTo ctx.created)

theorem mem_handlesTo {h n : ℕ} : h ∈ handlesTo n ↔ 0 < h ∧ h ≤ n := by
  simp only [handlesTo, List.mem_reverse, List.mem_range'_1]
  omega

namespace Context

variable {ctx ctx' : Context} {h : Handle} {url : String} {r x : Option Errno}

theorem created_of_socket {kind : SocketKind} (hs : ctx.socket kind r = (.ok h, ctx')) :
    h = ctx.created + 1 ∧ ctx'.created = ctx.created + 1 ∧
      ctx'.sockets = Function.update ctx.sockets h (some ⟨kind, []⟩) := by
  cases r with
  | some e => simp [socket] at hs
  | none =>
      obtain ⟨hh, rfl⟩ := Prod.mk.inj hs
      obtain rfl := Except.ok.inj hh
      exact ⟨rfl, rfl, rfl⟩

theorem inOrder_of_socket {kind : SocketKind} {y : Except Errno Handle}
    (hs : ctx.socket kind r = (y, ctx')) (hi : ctx.InOrder) : ctx'.InOrder := by
  cases r with
  | some e => exact (Prod.mk.inj hs).2 ▸ hi
  | none =>
      obtain ⟨-, rfl⟩ := Prod.mk.inj hs
      have hi : audit (ctx.calls.map Call.event) = some (handlesTo ctx.created) := hi
      simp only [InOrder, trace, List.map_append, List.map_singleton, audit_snoc, hi]
      simp [Call.event, check, handlesTo_succ]

theorem inOrder_call (hi : ctx.InOrder) {c : Call} (hc : c.event = .use h)
    (hh : h ∈ handlesTo ctx.created) : (ctx.call c).InOrder := by
  have hi : audit (ctx.calls.map Call.event) = some (handlesTo ctx.created) := hi
  simp only [InOrder, trace, call, List.map_append, List.map_singleton, audit_snoc, hi, hc]
  exact check_of_use hh

theorem created_of_connect (hc : ctx.connect h url r = (x, ctx')) : ctx'.created = ctx.created := by
  cases r <;> exact (Prod.mk.inj hc).2 ▸ rfl

theorem created_of_bind (hb : ctx.bind h url r = (x, ctx')) : ctx'.created = ctx.created := by
  unfold bind at hb
  dsimp only at hb
  split at hb <;> exact (Prod.mk.inj hb).2 ▸ rfl

theorem inOrder_of_connect (hc : ctx.connect h url r = (x, ctx')) (hi : ctx.InOrder)
    (hh : h ∈ handlesTo ctx.created) : ctx'.InOrder := by
  have hcall := inOrder_call hi (c := .connect h) rfl hh
  cases r <;> exact (Prod.mk.inj hc).2 ▸ hcall

theorem inOrder_of_bind (hb : ctx.bind h url r = (x, ctx')) (hi : ctx.InOrder)
    (hh : h ∈ handlesTo ctx.created) : ctx'.InOrder := by
  have hcall := inOrder_call hi (c := .bind h) rfl hh
  unfold bind at hb
  dsimp only at hb
  split at hb <;> exact (Prod.mk.inj hb).2 ▸ hcall

theorem sockets_of_connect (hc : ctx.connect h url r = (none, ctx')) :
    ctx'.sockets = Function.update ctx.sockets h ((ctx.sockets h).map fun s =>
      { s with endpoints := s.endpoints ++ [.connected url] }) := by
  cases r with
  | some e => simp [connect] at hc
  | none => exact (Prod.mk.inj hc).2 ▸ rfl

theorem sockets_of_bind (hb : ctx.bind h url r = (none, ctx')) :
    ctx'.sockets = Function.update ctx.sockets h ((ctx.sockets h).map fun s =>
      { s with endpoints := s.endpoints ++ [.bound url] }) := by
  unfold bind at hb
  dsimp only at hb
  split at hb
  · simp at hb
  · exact (Prod.mk.inj hb).2 ▸ rfl

end Context

namespace BrokerClass

variable {k : BrokerClass} {ctx ctx' : Context} {h : Handle} {url : String} {r x : Option Errno}

theorem created_of_attach (ha : k.attach ctx h url r = (x, ctx')) : ctx'.created = ctx.created := by
  cases k with
  | broker => exact Context.created_of_bind ha
  | publisher => exact Context.created_of_connect ha

theorem inOrder_of_attach (ha : k.attach ctx h url r = (x, ctx')) (hi : ctx.InOrder)
    (hh : h ∈ handlesTo ctx.created) : ctx'.InOrder := by
  cases k with
  | broker => exact Context.inOrder_of_bind ha hi hh
  | publisher => exact Context.inOrder_of_connect ha hi hh

theorem sockets_of_attach (ha : k.attach ctx h url r = (none, ctx')) :
    ctx'.sockets = Function.update ctx.sockets h ((ctx.sockets h).map fun s =>
      { s with endpoints := s.endpoints ++ (k.frontendSocket url).endpoints }) := by
  cases k with
  | broker => exact Context.sockets_of_bind ha
  | publisher => exact Context.sockets_of_connect ha

theorem inOrder_setUp (k : BrokerClass) {ctx : Context} (hi : ctx.InOrder) (c : BindArgs) :
    (k.setUp ctx c).2.InOrder := by
  unfold setUp
  split
  · next e ctx hs => exact Context.inOrder_of_socket hs hi
  · next f ctx₁ hs =>
      have hi := Context.inOrder_of_socket hs hi
      obtain ⟨rfl, hcreated, -⟩ := Context.created_of_socket hs
      split
      · next e ctx hs => exact Context.inOrder_of_socket hs hi
      · next g ctx₂ hs =>
          have hi := Context.inOrder_of_socket hs hi
          obtain ⟨rfl, hcreated', -⟩ := Context.created_of_socket hs
          have hfront : ctx.created + 1 ∈ handlesTo ctx₂.created := mem_handlesTo.mpr (by omega)
          have hback : ctx₁.created + 1 ∈ handlesTo ctx₂.created := mem_handlesTo.mpr (by omega)
          split
          · next e ctx ha => exact inOrder_of_attach ha hi hfront
          · next ctx₃ ha =>
              have hi := inOrder_of_attach ha hi hfront
              rw [← created_of_attach ha] at hback
              exact Context.inOrder_of_bind rfl hi hback

/-- A successful `bind` has opened two sockets and attached them. -/
theorem setUp_ok {c : BindArgs} (hs : k.setUp ctx c = (none, ctx')) :
    ctx'.created = ctx.created + 2 ∧
      ctx'.sockets (ctx.created + 1) = some (k.frontendSocket c.frontend) ∧
      ctx'.sockets (ctx.created + 2) = some (k.backendSocket c.backend) := by
  unfold setUp at hs
  split at hs
  · simp at hs
  · next f ctx₁ hf =>
      obtain ⟨rfl, hcreated₁, hsockets₁⟩ := Context.created_of_socket hf
      split at hs
      · simp at hs
      · next g ctx₂ hg =>
          obtain ⟨rfl, hcreated₂, hsockets₂⟩ := Context.created_of_socket hg
          split at hs
          · simp at hs
          · next ctx₃ ha =>
              have hcreated₃ := created_of_attach ha
              have hsockets₃ := sockets_of_attach ha
              have hcreated₄ := Context.created_of_bind hs
              have hsockets₄ := Context.sockets_of_bind hs
              refine ⟨by omega, ?_, ?_⟩
              · simp only [hsockets₄, hsockets₃, hsockets₂, hsockets₁, hcreated₁]
                cases k <;> simp [frontendSocket, frontendKind]
              · simp only [hsockets₄, hsockets₃, hsockets₂, hcreated₁]
                cases k <;> simp [backendSocket, backendKind]

end BrokerClass

theorem inOrder_bind (k : BrokerClass) {b : Broker} (hi : b.context.InOrder) (c : BindArgs) :
    (k.bind strerror b c).2.context.InOrder := by
  rw [(k.setUp_of_bind strerror b c).2.1]
  exact k.inOrder_setUp hi c

/-- A bind opens no socket exactly when its first `zmq_socket` fails. -/
theorem created_bind (k : BrokerClass) (b : Broker) (c : BindArgs) :
    (c.calls.socketFrontend ≠ none →
      (k.bind strerror b c).2.context.created = b.context.created) ∧
    (c.calls.socketFrontend = none →
      b.context.created < (k.bind strerror b c).2.context.created) := by
  constructor
  · intro h
    rw [(k.setUp_of_bind strerror b c).2.1]
    cases hc : c.calls.socketFrontend with
    | none => exact (h hc).elim
    | some e => simp [BrokerClass.setUp, Context.socket, hc]
  · intro h
    by_contra hle
    -- a handle beyond those that the context has returned is not open
    have hfresh := (k.bind strerror b c).2.context.fresh (b.context.created + 1) (by omega)
    exact k.opens strerror b h hfresh

theorem bind_ok {k : BrokerClass} {b b' : Broker} {c : BindArgs}
    (h : k.bind strerror b c = (.ok, b')) :
    b'.context.created = b.context.created + 2 ∧
      b'.context.sockets (b.context.created + 1) = some (k.frontendSocket c.frontend) ∧
      b'.context.sockets (b.context.created + 2) = some (k.backendSocket c.backend) := by
  obtain ⟨hok, hcontext, -⟩ := k.setUp_of_bind strerror b c
  rw [h] at hok hcontext
  rcases hs : k.setUp b.context c with ⟨_ | e, ctx⟩
  · rw [hcontext, hs]
    exact BrokerClass.setUp_ok hs
  · simp [hs] at hok

/-- `Broker` keeps the two handles that it gets. -/
theorem members_brokerBind {b b' : Broker} {c : BindArgs}
    (h : BrokerImpl.bind strerror b c.backend c.frontend c.calls = (.ok, b')) :
    b'.frontend = b.context.created + 1 ∧ b'.backend = b.context.created + 2 := by
  unfold BrokerImpl.bind at h
  split at h
  · simp at h
  · next f ctx hf =>
      obtain ⟨rfl, hcreated, -⟩ := Context.created_of_socket hf
      dsimp only at h
      split at h
      · simp at h
      · next g ctx hg =>
          obtain ⟨rfl, -, -⟩ := Context.created_of_socket hg
          split at h
          · simp at h
          · split at h
            · simp at h
            · obtain rfl := (Prod.mk.inj h).2
              exact ⟨rfl, congrArg (· + 1) hcreated⟩

/-- The locals of `bind` hide the members. -/
theorem members_publisherBind (b : Broker) (c : BindArgs) :
    (BrokerPublisherImpl.bind strerror b c.backend c.frontend c.calls).2.frontend = b.frontend ∧
      (BrokerPublisherImpl.bind strerror b c.backend c.frontend c.calls).2.backend = b.backend := by
  unfold BrokerPublisherImpl.bind
  split
  · exact ⟨rfl, rfl⟩
  · dsimp only
    split
    · exact ⟨rfl, rfl⟩
    · split
      · exact ⟨rfl, rfl⟩
      · split <;> exact ⟨rfl, rfl⟩

/-! ## A whole life -/

theorem inOrder_bindAll (k : BrokerClass) (cs : List BindArgs) {b : Broker}
    (hi : b.context.InOrder) : (k.bindAll strerror b cs).context.InOrder := by
  induction cs generalizing b with
  | nil => exact hi
  | cons c cs ih => exact ih (inOrder_bind strerror k hi c)

/-- Earlier calls of `bind` have opened nothing when each of them failed at
its first call. -/
theorem created_bindAll (k : BrokerClass) (cs : List BindArgs) (b : Broker) :
    b.context.created ≤ (k.bindAll strerror b cs).context.created ∧
      ((k.bindAll strerror b cs).context.created = b.context.created ↔
        ∀ c ∈ cs, c.calls.socketFrontend ≠ none) := by
  induction cs generalizing b with
  | nil => simp [BrokerClass.bindAll]
  | cons c cs ih =>
      obtain ⟨hle, hiff⟩ := ih (k.bind strerror b c).2
      obtain ⟨hfail, hopen⟩ := created_bind strerror k b c
      simp only [BrokerClass.bindAll, List.foldl_cons, List.forall_mem_cons] at hle hiff ⊢
      by_cases hc : c.calls.socketFrontend = none
      · have hlt := hopen hc
        refine ⟨by omega, ?_⟩
        constructor
        · intro heq
          omega
        · intro h
          exact (h.1 hc).elim
      · have heq := hfail hc
        rw [heq] at hle hiff
        exact ⟨hle, by simp [hiff, hc]⟩

theorem members_bindAll (cs : List BindArgs) (b : Broker) :
    (BrokerClass.publisher.bindAll strerror b cs).frontend = b.frontend ∧
      (BrokerClass.publisher.bindAll strerror b cs).backend = b.backend := by
  induction cs generalizing b with
  | nil => exact ⟨rfl, rfl⟩
  | cons c cs ih =>
      obtain ⟨hfront, hback⟩ := ih (BrokerClass.publisher.bind strerror b c).2
      obtain ⟨hf, hb⟩ := members_publisherBind strerror b c
      exact ⟨hfront.trans hf, hback.trans hb⟩

theorem members_of_bind {b₀ b : Broker} {cs : List BindArgs} {c : BindArgs} {x : ErrorType}
    (h : BrokerClass.publisher.bind strerror (BrokerClass.publisher.bindAll strerror b₀ cs) c =
      (x, b)) : b.frontend = b₀.frontend ∧ b.backend = b₀.backend := by
  obtain ⟨hfront, hback⟩ := members_bindAll strerror cs b₀
  obtain ⟨hf, hb⟩ :=
    members_publisherBind strerror (BrokerClass.publisher.bindAll strerror b₀ cs) c
  have hbind : (BrokerClass.publisher.bind strerror
      (BrokerClass.publisher.bindAll strerror b₀ cs) c).2 = b := congrArg Prod.snd h
  constructor
  · exact (congrArg Broker.frontend hbind).symm.trans (hf.trans hfront)
  · exact (congrArg Broker.backend hbind).symm.trans (hb.trans hback)

/-! ## What the loops do to the sockets -/

/-- `start_loop` makes these calls and keeps the members. -/
structure Broker.Makes (b b' : Broker) (us : List Call) : Prop where
  frontend : b'.frontend = b.frontend
  backend : b'.backend = b.backend
  created : b'.context.created = b.context.created
  calls : b'.context.calls = b.context.calls ++ us

section

variable {b : Broker} {as : List BrokerLoop.Action} {a : BrokerLoop.Action} {s t : Loop}
  {us : List Call}

theorem relays_start (handle : Side → Handle) : Relays handle [] .start [] :=
  ⟨by simp, fun _ => rfl, fun _ => le_rfl, fun _ => le_rfl, fun _ => List.Sublist.refl _,
    fun _ _ => ⟨rfl, rfl⟩⟩

/-- What a step has to add to the calls. -/
structure Adds (handle : Side → Handle) (a : BrokerLoop.Action) (s t : Loop)
    (new : List Call) : Prop where
  only : ∀ u ∈ new, ∃ d, u = .poll (handle d) ∨ u = .msgRecv (handle d) .none ∨
    ∃ more, u = .msgSend (handle d) (BrokerImpl.sendFlags more)
  polled : ∀ d, new.count (.poll (handle d)) = new.count (.poll (handle d.other))
  passed : ∀ d, (t.passes d).length + t.pc.due d ≤
    (s.passes d).length + s.pc.due d + new.count (.poll (handle d))
  received : ∀ d, ∃ n ≤ new.count (.msgRecv (handle d) .none),
    (t.received d).length = (s.received d).length + n ∧
      (a ≠ .fail → n = new.count (.msgRecv (handle d) .none))
  sent : ∀ d, ∃ flags, flags.Sublist (new.filterMap (Call.sendOn (handle d))) ∧
    ((t.sent d).map fun p => BrokerImpl.sendFlags p.2) =
      ((s.sent d).map fun p => BrokerImpl.sendFlags p.2) ++ flags ∧
      (a ≠ .fail → flags = new.filterMap (Call.sendOn (handle d)))

theorem Relays.append {handle : Side → Handle} {new : List Call} (h : Relays handle as s us)
    (hnew : Adds handle a s t new) : Relays handle (as ++ [a]) t (us ++ new) where
  only := List.forall_mem_append.mpr ⟨h.only, hnew.only⟩
  polled d := by rw [List.count_append, List.count_append, h.polled, hnew.polled]
  passed d := by
    have hold := h.passed d
    have hnew := hnew.passed d
    rw [List.count_append]
    omega
  received d := by
    obtain ⟨n, hn, hlength, -⟩ := hnew.received d
    rw [List.count_append, hlength]
    exact Nat.add_le_add (h.received d) hn
  sent d := by
    obtain ⟨flags, hflags, hsent, -⟩ := hnew.sent d
    rw [List.filterMap_append, hsent]
    exact (h.sent d).append hflags
  exact hnot d := by
    have hne : a ≠ .fail :=
      fun ha => hnot (List.mem_append_right _ (List.mem_singleton.mpr ha.symm))
    obtain ⟨hreceived, hsent⟩ := h.exact (fun hfail => hnot (List.mem_append_left _ hfail)) d
    obtain ⟨n, -, hlength, hn⟩ := hnew.received d
    obtain ⟨flags, -, hmap, hflags⟩ := hnew.sent d
    rw [List.count_append, List.filterMap_append, hlength, hmap, hreceived, hsent, hn hne,
      hflags hne]
    exact ⟨rfl, rfl⟩

theorem adds_nothing (handle : Side → Handle) (a : BrokerLoop.Action)
    (hpassed : ∀ d, (t.passes d).length + t.pc.due d ≤ (s.passes d).length + s.pc.due d)
    (hreceived : t.received = s.received) (hsent : t.sent = s.sent) : Adds handle a s t [] where
  only := by simp
  polled _ := rfl
  passed := hpassed
  received d := ⟨0, le_rfl, by rw [hreceived]; rfl, fun _ => rfl⟩
  sent d := ⟨[], List.Sublist.refl _, by rw [hsent, List.append_nil], fun _ => rfl⟩

theorem adds_of_step (hne : b.frontend ≠ b.backend) (h : BrokerLoop.step s a = some t) :
    Adds b.handle a s t (BrokerImpl.loopCalls b s a) := by
  have hinj : ∀ d e, b.handle d = b.handle e ↔ d = e := by
    rintro (_ | _) (_ | _) <;> simp [Broker.handle, bySide, hne, hne.symm]
  cases BrokerLoop.step_cases h with
  | arrive d m => exact adds_nothing _ _ (fun _ => le_rfl) rfl rfl
  | poll hpc hready =>
      have hcalls : BrokerImpl.loopCalls b s .call = [.poll b.frontend, .poll b.backend] := by
        simp [BrokerImpl.loopCalls, hpc]
      rw [hcalls]
      constructor
      · intro u hu
        rcases List.mem_pair.mp hu with rfl | rfl
        · exact ⟨.frontend, .inl rfl⟩
        · exact ⟨.backend, .inl rfl⟩
      · rintro (_ | _) <;> simp [Broker.handle, bySide, Side.other, hne, hne.symm]
      · rintro (_ | _) <;> simp [Broker.handle, bySide, hpc, BrokerLoop.Pc.due, hne, hne.symm]
      · exact fun d => ⟨0, Nat.zero_le _, rfl, fun _ => by simp⟩
      · exact fun d => ⟨[], List.nil_sublist _, (List.append_nil _).symm,
          fun _ => by simp [Call.sendOn]⟩
  | recv d p rest hpc hin =>
      have hcalls : BrokerImpl.loopCalls b s .call = [.msgRecv (b.handle d) .none] := by
        simp [BrokerImpl.loopCalls, hpc]
      rw [hcalls]
      constructor
      · exact fun u hu => ⟨d, .inr (.inl (List.mem_singleton.mp hu))⟩
      · simp
      · intro e
        simp [Loop.take, hpc, BrokerLoop.Pc.due]
      · intro e
        by_cases he : d = e
        · subst he
          exact ⟨1, by simp, by simp [Loop.take], fun _ => by simp⟩
        · exact ⟨0, Nat.zero_le _, by simp [Loop.take, Function.update_of_ne (Ne.symm he)],
            fun _ => by simp [hinj, he]⟩
      · exact fun e => ⟨[], List.nil_sublist _, (List.append_nil _).symm,
          fun _ => by simp [Call.sendOn]⟩
  | send d more hpc =>
      have hcalls : BrokerImpl.loopCalls b s .call =
          [.msgSend (b.handle d.other) (BrokerImpl.sendFlags more)] := by
        simp [BrokerImpl.loopCalls, hpc]
      rw [hcalls]
      constructor
      · exact fun u hu => ⟨d.other, .inr (.inr ⟨more, List.mem_singleton.mp hu⟩)⟩
      · simp
      · intro e
        simp [Loop.put, hpc, BrokerLoop.Pc.due]
      · exact fun e => ⟨0, Nat.zero_le _, rfl, fun _ => by simp⟩
      · intro e
        by_cases he : d.other = e
        · subst he
          exact ⟨[BrokerImpl.sendFlags more], by simp [Call.sendOn], by simp [Loop.put],
            fun _ => by simp [Call.sendOn]⟩
        · exact ⟨[], List.nil_sublist _, by simp [Loop.put, Function.update_of_ne (Ne.symm he)],
            fun _ => by simp [Call.sendOn, hinj, he]⟩
  | recvFail d hpc =>
      have hcalls : BrokerImpl.loopCalls b s .fail = [.msgRecv (b.handle d) .none] := by
        simp [BrokerImpl.loopCalls, hpc]
      rw [hcalls]
      constructor
      · exact fun u hu => ⟨d, .inr (.inl (List.mem_singleton.mp hu))⟩
      · simp
      · intro e
        simp [hpc, BrokerLoop.Pc.due]
      · exact fun e => ⟨0, Nat.zero_le _, rfl, fun hne => (hne rfl).elim⟩
      · exact fun e => ⟨[], List.nil_sublist _, (List.append_nil _).symm,
          fun hne => (hne rfl).elim⟩
  | sendFail d more hpc =>
      have hcalls : BrokerImpl.loopCalls b s .fail =
          [.msgSend (b.handle d.other) (BrokerImpl.sendFlags more)] := by
        simp [BrokerImpl.loopCalls, hpc]
      rw [hcalls]
      constructor
      · exact fun u hu => ⟨d.other, .inr (.inr ⟨more, List.mem_singleton.mp hu⟩)⟩
      · simp
      · intro e
        simp [hpc, BrokerLoop.Pc.due]
      · exact fun e => ⟨0, Nat.zero_le _, rfl, fun hne => (hne rfl).elim⟩
      · exact fun e => ⟨[], List.nil_sublist _, (List.append_nil _).symm,
          fun hne => (hne rfl).elim⟩
  | enter d hpc hrev | init d hpc | more d hpc =>
      have hcalls : BrokerImpl.loopCalls b s .call = [] := by simp [BrokerImpl.loopCalls, hpc]
      rw [hcalls]
      refine adds_nothing _ _ (fun e => ?_) rfl rfl
      simp [hpc, BrokerLoop.Pc.due]
  | skip d hpc hrev =>
      have hcalls : BrokerImpl.loopCalls b s .call = [] := by simp [BrokerImpl.loopCalls, hpc]
      rw [hcalls]
      refine adds_nothing _ _ (fun e => ?_) rfl rfl
      cases d <;> cases e <;> simp [hpc, BrokerLoop.Pc.due, BrokerLoop.Pc.after]
  | close d more hpc =>
      have hcalls : BrokerImpl.loopCalls b s .call = [] := by simp [BrokerImpl.loopCalls, hpc]
      rw [hcalls]
      refine adds_nothing _ _ (fun e => ?_) ?_ ?_
      · cases more <;> cases d <;> cases e <;>
          simp [hpc, Loop.endTurn, BrokerLoop.Pc.due, BrokerLoop.Pc.after]
      · cases more <;> rfl
      · cases more <;> rfl

/-- A run of `Broker::start_loop` is one of the loop that relays between the
two sockets in the members. -/
theorem relays_of_startLoop {b' : Broker} (hne : b.frontend ≠ b.backend)
    (h : BrokerImpl.startLoop b as = some b') : ∃ us s, b.Makes b' us ∧
      run BrokerLoop.step .start as = some s ∧ Relays b.handle as s us := by
  obtain ⟨p, hp, rfl⟩ := Option.map_eq_some_iff.mp h
  suffices hrun : ∃ us, b.Makes { b with context := p.1 } us ∧
      run BrokerLoop.step .start as = some p.2 ∧ Relays b.handle as p.2 us by
    obtain ⟨us, hmakes, hs, hrelays⟩ := hrun
    exact ⟨us, p.2, hmakes, hs, hrelays⟩
  refine run_history (P := fun as p => ∃ us, b.Makes { b with context := p.1 } us ∧
    run BrokerLoop.step .start as = some p.2 ∧ Relays b.handle as p.2 us) hp
    ⟨[], ⟨rfl, rfl, rfl, (List.append_nil _).symm⟩, rfl, relays_start b.handle⟩ ?_
  rintro as a q q' ⟨us, hmakes, hrun, hrelays⟩ hstep
  obtain ⟨s, hs, rfl⟩ := Option.map_eq_some_iff.mp hstep
  refine ⟨us ++ BrokerImpl.loopCalls b q.2 a, ⟨rfl, rfl, hmakes.created, ?_⟩, ?_,
    hrelays.append (adds_of_step hne hs)⟩
  · rw [← List.append_assoc, ← hmakes.calls]
  · rw [run_append, hrun, Option.bind_some]
    exact run_cons_eq_some.mpr ⟨s, hs, rfl⟩

theorem Relays.event (h : Relays b.handle as s us) :
    ∀ u ∈ us, u.event = .use b.frontend ∨ u.event = .use b.backend := by
  intro u hu
  obtain ⟨d, rfl | rfl | ⟨more, rfl⟩⟩ := h.only u hu
  all_goals cases d
  · exact .inl rfl
  · exact .inr rfl
  · exact .inl rfl
  · exact .inr rfl
  · exact .inl rfl
  · exact .inr rfl

theorem makes_publisherLoop (b : Broker) (r : Option Errno) :
    b.Makes (BrokerPublisherImpl.startLoop strerror b r)
      [.proxy b.frontend, .proxy b.backend] := by
  have hcalls : ((b.context.call (.proxy b.frontend)).call (.proxy b.backend)).calls =
      b.context.calls ++ [.proxy b.frontend, .proxy b.backend] := by simp [Context.call]
  cases r <;> exact ⟨rfl, rfl, rfl, hcalls⟩

end

/-- When the members are the two handles of the last `bind`, the trace of
the whole life is in order exactly when no earlier `bind` opened a socket. -/
theorem audit_life {b b' : Broker} {us : List Call} (hi : b.context.InOrder)
    (hm : b.Makes b' us) (hus : ∀ u ∈ us, u.event = .use b.frontend ∨ u.event = .use b.backend)
    {n : ℕ} (hn : b.context.created = n + 2) (hfront : b.frontend = n + 1)
    (hback : b.backend = n + 2) : (audit b'.destroy.context.trace).isSome ↔ n = 0 := by
  have hi : audit b.context.trace = some (handlesTo (n + 2)) := hn ▸ hi
  have hall : audit b'.context.trace = some (handlesTo (n + 2)) := by
    rw [Context.trace, hm.calls, List.map_append]
    apply audit_append_uses hi
    intro e he
    obtain ⟨u, hu, rfl⟩ := List.mem_map.mp he
    rcases hus u hu with hu | hu
    · exact ⟨_, mem_handlesTo.mpr (by rw [hfront]; omega), hu⟩
    · exact ⟨_, mem_handlesTo.mpr (by rw [hback]; omega), hu⟩
  have htrace : b'.destroy.context.trace =
      b'.context.trace ++ [n + 2, n + 1].map .release ++ [.finish] := by
    simp [Broker.destroy, Context.trace, Context.close, Context.destroy, Context.call,
      Call.event, hm.frontend, hm.backend, hfront, hback]
  rw [htrace, audit_append_releases_finish]
  constructor
  · rintro ⟨opened, hopened, hperm⟩
    obtain rfl := Option.some.inj (hall.symm.trans hopened)
    simpa using hperm.length_eq.symm
  · rintro rfl
    exact ⟨_, hall, List.Perm.refl _⟩

/-- A `Broker` relays between the sockets of its last `bind`. -/
theorem wired_broker {before b b' : Broker} {c : BindArgs} {as : List BrokerLoop.Action}
    {r : Option Errno} (hi : b.context.InOrder)
    (hbind : BrokerClass.broker.bind strerror before c = (.ok, b))
    (hloop : BrokerClass.broker.startLoop strerror b as r = some b') :
    BrokerClass.broker.Wired before b b' c as ∧
      ((audit b'.destroy.context.trace).isSome ↔ before.context.created = 0) := by
  obtain ⟨hn, hsocketf, hsocketb⟩ := bind_ok strerror hbind
  obtain ⟨hfront, hback⟩ := members_brokerBind strerror hbind
  obtain ⟨us, s, hmakes, hrun, hrelays⟩ :=
    relays_of_startLoop (by simp [hfront, hback]) hloop
  refine ⟨⟨hsocketf, hsocketb, us, hmakes.calls, s, hrun, ?_⟩,
    audit_life hi hmakes hrelays.event hn hfront hback⟩
  rwa [Broker.handle, hfront, hback] at hrelays

/-- A `BrokerPublisher` relays between the sockets of its last `bind` when
the members happen to hold their handles. -/
theorem wired_publisher {before b b' : Broker} {c : BindArgs} {as : List BrokerLoop.Action}
    {r : Option Errno} (hi : b.context.InOrder)
    (hbind : BrokerClass.publisher.bind strerror before c = (.ok, b))
    (hloop : BrokerClass.publisher.startLoop strerror b as r = some b') :
    (BrokerClass.publisher.Wired before b b' c as ↔
      b.frontend = before.context.created + 1 ∧ b.backend = before.context.created + 2) ∧
    (b.frontend = before.context.created + 1 → b.backend = before.context.created + 2 →
      ((audit b'.destroy.context.trace).isSome ↔ before.context.created = 0)) := by
  obtain ⟨hn, hsocketf, hsocketb⟩ := bind_ok strerror hbind
  obtain rfl := Option.some.inj hloop
  have hmakes := makes_publisherLoop strerror b r
  constructor
  · constructor
    · rintro ⟨-, -, us, hus, rfl⟩
      have hcalls := List.append_cancel_left (hmakes.calls.symm.trans hus)
      simpa using hcalls
    · rintro ⟨hfront, hback⟩
      exact ⟨hsocketf, hsocketb, _, hmakes.calls, by rw [hfront, hback]; rfl⟩
  · exact fun hfront hback => audit_life hi hmakes (by simp [Call.event]) hn hfront hback

/-- After any calls of `bind` of which the last returned `OK`, the object
relays between the sockets of that call and its whole life is in order
exactly when no earlier call opened a socket and, for `BrokerPublisher`,
the members that `bind` does not assign happen to hold the handles that it
gets. -/
theorem broker_lifecycle {k : BrokerClass} {junkBackend junkFrontend : Handle}
    {cs : List BindArgs} {c : BindArgs} {b b' : Broker} {as : List BrokerLoop.Action}
    {r : Option Errno}
    (hbind : k.bind strerror (k.bindAll strerror (.start junkBackend junkFrontend) cs) c = (.ok, b))
    (hloop : k.startLoop strerror b as r = some b') :
    (k.Wired (k.bindAll strerror (.start junkBackend junkFrontend) cs) b b' c as ∧
        (audit b'.destroy.context.trace).isSome) ↔
      (∀ c ∈ cs, c.calls.socketFrontend ≠ none) ∧
        (k = .publisher → junkFrontend = 1 ∧ junkBackend = 2) := by
  have hstart : (Broker.start junkBackend junkFrontend).context.InOrder := rfl
  have hi := inOrder_bind strerror k (inOrder_bindAll strerror k cs hstart) c
  rw [hbind] at hi
  have hcreated : (k.bindAll strerror (.start junkBackend junkFrontend) cs).context.created = 0 ↔
      ∀ c ∈ cs, c.calls.socketFrontend ≠ none :=
    (created_bindAll strerror k cs (.start junkBackend junkFrontend)).2
  rw [← hcreated]
  cases k with
  | broker =>
      obtain ⟨hwired, haudit⟩ := wired_broker strerror hi hbind hloop
      simp [hwired, haudit]
  | publisher =>
      obtain ⟨hf, hb⟩ := members_of_bind strerror hbind
      obtain ⟨hwired, haudit⟩ := wired_publisher strerror hi hbind hloop
      generalize BrokerClass.publisher.bindAll strerror (.start junkBackend junkFrontend) cs =
        before at *
      rw [hwired, hf, hb]
      rw [hf, hb] at haudit
      constructor
      · rintro ⟨⟨hfront, hback⟩, h⟩
        have hzero := (haudit hfront hback).mp h
        rw [hzero] at hfront hback
        exact ⟨hzero, fun _ => ⟨hfront, hback⟩⟩
      · rintro ⟨hzero, hjunk⟩
        obtain ⟨hfront, hback⟩ := hjunk rfl
        rw [hzero] at haudit ⊢
        exact ⟨⟨hfront, hback⟩, (haudit hfront hback).mpr rfl⟩

def retried : List BindArgs := [⟨"backend", "frontend", ⟨some .eintr, none, none, none⟩⟩]

/-- A message comes to the frontend and is relayed. -/
def relayed : List BrokerLoop.Action :=
  .arrive .frontend ⟨[[1]], by simp⟩ :: List.replicate 8 .call

/-- A `bind` whose first call fails, a `bind` that succeeds, and a loop that
relays one message. -/
theorem broker_lifecycle_retry : ∃ b b' us,
    BrokerClass.broker.bind (fun _ => "")
      (BrokerClass.broker.bindAll (fun _ => "") (.start 8 7) retried)
      ⟨"backend", "frontend", ⟨none, none, none, none⟩⟩ = (.ok, b) ∧
    BrokerClass.broker.startLoop (fun _ => "") b relayed none = some b' ∧
    b'.context.calls = b.context.calls ++ us ∧ BrokerClass.broker.Between 1 2 relayed us ∧
    (audit b'.destroy.context.trace).isSome := by
  obtain ⟨b, hb⟩ : ∃ b, BrokerClass.broker.bind (fun _ => "")
      (BrokerClass.broker.bindAll (fun _ => "") (.start 8 7) retried)
      ⟨"backend", "frontend", ⟨none, none, none, none⟩⟩ = (.ok, b) := ⟨_, rfl⟩
  obtain ⟨b', hb'⟩ : ∃ b', BrokerClass.broker.startLoop (fun _ => "") b relayed none =
      some b' := ⟨_, rfl⟩
  have hearlier : ∀ c ∈ retried, c.calls.socketFrontend ≠ none := by decide
  obtain ⟨⟨-, -, us, hus, hbetween⟩, haudit⟩ :=
    (broker_lifecycle (fun _ => "") hb hb').mpr ⟨hearlier, by simp⟩
  exact ⟨b, b', us, hb, hb', hus, hbetween, haudit⟩

theorem broker_lifecycle_fails : ¬ ∀ (strerror : Errno → String) (k : BrokerClass)
    (junkBackend junkFrontend : Handle) (cs : List BindArgs) (c : BindArgs) (b b' : Broker)
    (as : List BrokerLoop.Action) (r : Option Errno),
    k.bind strerror (k.bindAll strerror (.start junkBackend junkFrontend) cs) c = (.ok, b) →
      k.startLoop strerror b as r = some b' →
        k.Wired (k.bindAll strerror (.start junkBackend junkFrontend) cs) b b' c as ∧
          (audit b'.destroy.context.trace).isSome := by
  intro h
  obtain ⟨⟨-, -, us, hus, rfl⟩, -⟩ := h (fun _ => "") .publisher 8 7 []
    ⟨"backend", "frontend", ⟨none, none, none, none⟩⟩ _ _ [] none rfl rfl
  exact absurd hus (by decide)

end ZeromqAgent
