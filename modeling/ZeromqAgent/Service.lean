import ZeromqAgent.Agreement
import ZeromqAgent.Theory.Simulation

/-!
# The service the network offers

Seen from outside, a request is called by a client, served by a worker
and its reply returned to the client. A service without sockets, in which
a call is served in one step, shows the same: the clients, the broker and
the workers have exactly its traces. Every event of the network is at most
one step of the service, since a request is served when a worker takes it.
Conversely each step of the service can be played by the network at once.
-/

namespace ZeromqAgent

open Framing Transition

namespace RequestReply

open BrokerLoop Stations

/-! ## The service -/

inductive Phase where
  | idle
  | called (request : Bytes)
  | replied (reply : Bytes)

inductive Op (C W : Type) where
  | call (c : C) (request : Bytes)
  | serve (c : C) (w : W)
  | reply (c : C)

/-- What an observer sees, the client of a served request included. -/
inductive Sight (C W : Type) where
  | called (c : C) (request : Bytes)
  | served (c : C) (w : W) (request : Bytes)
  | replied (c : C) (reply : Bytes)

section

variable {C W : Type} [DecidableEq C]

def serve (answer : W → Bytes → Bytes) (p : C → Phase) : Op C W → Option (C → Phase)
  | .call c request =>
      match p c with
      | .idle => some (Function.update p c (.called request))
      | _ => none
  | .serve c w =>
      match p c with
      | .called request => some (Function.update p c (.replied (answer w request)))
      | _ => none
  | .reply c =>
      match p c with
      | .replied _ => some (Function.update p c .idle)
      | _ => none

def seeOp (p : C → Phase) : Op C W → List (Sight C W)
  | .call c request => [.called c request]
  | .serve c w =>
      match p c with
      | .called request => [.served c w request]
      | _ => []
  | .reply c =>
      match p c with
      | .replied reply => [.replied c reply]
      | _ => []

/-- What the observer sees of the network. The client of a request is the
peer its envelope names. -/
def seeEvent (net : Routing C) (s : System C W) : Event C W → List (Sight C W)
  | .send c request => [.called c request]
  | .take w =>
      match (s.toWorker w).head?.bind repReceive with
      | some (id :: _, request :: _) => (net.peer id).toList.map fun c => .served c w request
      | _ => []
  | .receive c => ((s.toClient c).head?.bind reqReceive).toList.map fun reply => .replied c reply
  | _ => []

end

/-! ## From the network to the service -/

variable {C W : Type}

def Ticket.phase (answer : W → Bytes → Bytes) (t : Ticket C W) : Phase :=
  match t.place with
  | none => .idle
  | some p => if p.served then .replied (t.reply answer) else .called t.request

/-- What a client waits for, read off the history. -/
def phase (net : Routing C) (answer : W → Bytes → Bytes) (s : System C W) (c : C) : Phase :=
  if s.waiting c then
    if (handedTo net s c).length = (s.taken c).length then .called ((s.sent c).getLastD [])
    else .replied (((handedTo net s c).map fun h => answer h.1 h.2).getLastD [])
  else .idle

variable {net : Routing C} {answer : W → Bytes → Bytes} {s t : System C W}

theorem Describes.phase_eq {c : C} {tk : Ticket C W} (h : Describes net answer s c tk) :
    phase net answer s c = tk.phase answer := by
  have hserved := h.ok.served_length
  rw [phase, ← h.waiting, ← h.served, ← h.taken, ← h.sent]
  cases hp : tk.place with
  | none => simp [Ticket.phase, hp]
  | some p =>
      simp only [hp, Option.any_some] at hserved
      cases hs : p.served with
      | false =>
          simp only [hs, Bool.false_eq_true, if_false, Nat.add_zero] at hserved
          simp [Ticket.phase, Ticket.request, hp, hs, hserved]
      | true =>
          simp only [hs, if_true] at hserved
          have hne : tk.served.length ≠ tk.taken.length := by omega
          simp [Ticket.phase, Ticket.reply, Ticket.replies, hp, hs, hne]

/-- An event that writes no history does not show. -/
theorem phase_congr (hw : t.waiting = s.waiting) (hs : t.sent = s.sent)
    (hh : t.handed = s.handed) (ht : t.taken = s.taken) :
    phase net answer t = phase net answer s := by
  funext c
  rw [phase, phase, handedTo, handedTo, hw, hs, hh, ht]

variable [DecidableEq C]

theorem phase_eq_update {p : C → Phase} {c : C} {x : Phase} (hc : p c = x) {q : C → Phase}
    (hq : ∀ c', c' ≠ c → p c' = q c') : p = Function.update q c x := by
  funext c'
  by_cases h : c' = c
  · subst h
    rw [Function.update_self, hc]
  · rw [Function.update_of_ne h, hq c' h]

variable [DecidableEq W] {T : C → Ticket C W}

theorem Located.phase_eq (hl : Located net answer s T) (c : C) :
    phase net answer s c = (T c).phase answer := (hl.describes c).phase_eq

/-- The service answers the event by one step that shows the same. -/
theorem answers_send (hl : Located net answer s T) {c : C} {request : Bytes}
    (h : step net answer s (.send c request) = some t) :
    serve answer (phase net answer s) (.call c request : Op C W) =
      some (phase net answer t) := by
  simp only [step, Option.ite_none_left_eq_some, Bool.not_eq_true, Option.some.injEq] at h
  obtain ⟨hidle, rfl⟩ := h
  have hd := hl.describes c
  have hp : (T c).place = none := by simpa [hidle] using hd.waiting
  have hphase : phase net answer s c = .idle := by simp [phase, hidle]
  have hserved := hd.ok.served_length
  simp only [hp, Option.any_none, Bool.false_eq_true, if_false, Nat.add_zero, hd.served,
    hd.taken] at hserved
  rw [serve, hphase]
  refine congrArg some (phase_eq_update ?_ ?_).symm
  · simpa [phase, handedTo] using hserved
  · intro c' hc'
    simp [phase, handedTo, Function.update_of_ne hc']

theorem answers_take (hl : Located net answer s T) {w : W}
    (h : step net answer s (.take w) = some t) :
    ∃ c, serve answer (phase net answer s) (.serve c w) = some (phase net answer t) ∧
      seeOp (phase net answer s) (.serve c w) = seeEvent net s (.take w) := by
  cases hidle : s.serving w with
  | some r => simp [step, hidle] at h
  | none =>
      cases hq : s.toWorker w with
      | nil => simp [step, hidle, hq] at h
      | cons m rest =>
          obtain ⟨c, hc, hm, -⟩ := hl.carries.move (p := .toWorker w) hq
          have hreceive : repReceive m = some ([net.ident c, []], [(T c).request]) := by
            rw [hm]
            exact repReceive_ident (net.ident_ne_nil c) _
          simp only [step, hidle, hq, hreceive, Option.some.injEq] at h
          subst t
          have hd := hl.describes c
          have hphase : phase net answer s c = .called (T c).request := by
            rw [hl.phase_eq c, Ticket.phase, hc]
            rfl
          have hwaiting : s.waiting c = true := by simpa [hc] using hd.waiting.symm
          have hserved := hd.ok.served_length
          simp only [hc, Option.any_some, Stop.served, Bool.false_eq_true, if_false, Nat.add_zero,
            hd.served, hd.taken] at hserved
          refine ⟨c, ?_, ?_⟩
          · rw [serve, hphase]
            refine congrArg some (phase_eq_update ?_ ?_).symm
            · rw [handedTo] at hserved
              simp [phase, handedTo, hwaiting, hserved]
            · intro c' hc'
              have hident : net.ident c ≠ net.ident c' := net.ident_injective.ne (Ne.symm hc')
              simp [phase, handedTo, hident]
          · simp [seeOp, seeEvent, hphase, hq, hreceive, net.peer_ident]

theorem answers_receive (hl : Located net answer s T) {c : C}
    (h : step net answer s (.receive c) = some t) :
    serve answer (phase net answer s) (.reply c : Op C W) = some (phase net answer t) ∧
      seeOp (phase net answer s) (.reply c : Op C W) = seeEvent net s (.receive c) := by
  cases hwait : s.waiting c with
  | false => simp [step, hwait] at h
  | true =>
      cases hq : s.toClient c with
      | nil => simp [step, hwait, hq] at h
      | cons m rest =>
          obtain ⟨c', hc', hm, -⟩ := hl.carries.leave (p := .toClient c) hq
          have hown : c = c' := (hl.describes c').ok.own c (Or.inr hc')
          subst c'
          have hreceive : reqReceive m = some ((T c).reply answer) := by rw [hm]; rfl
          simp only [step, hwait, hq, hreceive, Option.map_some, Option.some.injEq] at h
          subst t
          have hphase : phase net answer s c = .replied ((T c).reply answer) := by
            rw [hl.phase_eq c, Ticket.phase, hc']
            rfl
          refine ⟨?_, by simp [seeOp, seeEvent, hphase, hq, hreceive]⟩
          rw [serve, hphase]
          refine congrArg some (phase_eq_update ?_ ?_).symm
          · simp [phase]
          · intro d hd
            simp [phase, handedTo, Function.update_of_ne hd]

theorem phase_of_unseen {e : Event C W} (h : step net answer s e = some t)
    (he : e = .relay ∨ e = .route ∨ (∃ c, e = .uplink c) ∨ ∃ w, e = .deal w ∨ e = .answer w ∨
      e = .downlink w) : phase net answer t = phase net answer s := by
  rcases he with rfl | rfl | ⟨c, rfl⟩ | ⟨w, rfl | rfl | rfl⟩
  · obtain ⟨b, -, rfl⟩ := Option.map_eq_some_iff.mp h
    exact phase_congr rfl rfl rfl rfl
  · cases hm : (messages (s.broker.sent .frontend))[s.routed]? with
    | none => simp [step, hm] at h
    | some m =>
        simp only [step, hm, Option.some.injEq] at h
        exact h ▸ phase_congr rfl rfl rfl rfl
  · cases hq : s.toRouter c with
    | nil => simp [step, hq] at h
    | cons m rest =>
        simp only [step, hq, Option.some.injEq] at h
        exact h ▸ phase_congr rfl rfl rfl rfl
  · cases hm : (messages (s.broker.sent .backend))[s.dealt]? with
    | none => simp [step, hm] at h
    | some m =>
        simp only [step, hm, Option.some.injEq] at h
        exact h ▸ phase_congr rfl rfl rfl rfl
  · cases hq : s.serving w with
    | none => simp [step, hq] at h
    | some r =>
        simp only [step, hq, Option.some.injEq] at h
        exact h ▸ phase_congr rfl rfl rfl rfl
  · cases hq : s.toDealer w with
    | nil => simp [step, hq] at h
    | cons m rest =>
        simp only [step, hq, Option.some.injEq] at h
        exact h ▸ phase_congr rfl rfl rfl rfl

/-- The network shows nothing that the service does not. -/
def toService (net : Routing C) (answer : W → Bytes → Bytes) :
    Simulation (step net answer) (seeEvent net) (serve answer) seeOp where
  rel s p := (∃ T, Located net answer s T) ∧ p = phase net answer s
  answers := by
    rintro s p e t ⟨⟨T, hl⟩, rfl⟩ h
    have ht := located_step net answer h ⟨T, hl⟩
    have hunseen (hsee : seeEvent net s e = [])
        (hphase : phase net answer t = phase net answer s) :
        ∃ os p', run (serve answer) (phase net answer s) os = some p' ∧
          trace (serve answer) seeOp (phase net answer s) os = seeEvent net s e ∧
          (∃ T, Located net answer t T) ∧ p' = phase net answer t :=
      ⟨[], _, rfl, hsee.symm, ht, hphase.symm⟩
    cases e with
    | send c request =>
        obtain ⟨hr, htrace⟩ := trace_singleton seeOp (answers_send hl h)
        exact ⟨_, _, hr, htrace, ht, rfl⟩
    | take w =>
        obtain ⟨c, hop, hsee⟩ := answers_take hl h
        obtain ⟨hr, htrace⟩ := trace_singleton seeOp hop
        exact ⟨_, _, hr, htrace.trans hsee, ht, rfl⟩
    | receive c =>
        obtain ⟨hop, hsee⟩ := answers_receive hl h
        obtain ⟨hr, htrace⟩ := trace_singleton seeOp hop
        exact ⟨_, _, hr, htrace.trans hsee, ht, rfl⟩
    | uplink c => exact hunseen rfl (phase_of_unseen h (by simp))
    | relay => exact hunseen rfl (phase_of_unseen h (by simp))
    | deal w => exact hunseen rfl (phase_of_unseen h (by simp))
    | answer w => exact hunseen rfl (phase_of_unseen h (by simp))
    | downlink w => exact hunseen rfl (phase_of_unseen h (by simp))
    | route => exact hunseen rfl (phase_of_unseen h (by simp))

end RequestReply

/-! ## A message through an idle broker -/

namespace BrokerLoop

/-- The loop polls, with nothing to read and nothing half sent. -/
structure Loop.Rests (s : Loop) : Prop where
  poll : s.pc = .poll
  inbound : ∀ d, s.inbound d = []
  sent : ∀ d, pending (s.sent d) = []

theorem rests_start : Loop.start.Rests := ⟨rfl, fun _ => rfl, fun _ => rfl⟩

theorem run_of_rests {s : Loop} (hs : s.Rests) (d : Side) {m : Multipart} {a b c : Bytes}
    (hm : m.val = [a, b, c]) :
    ∃ t, run step (s.arrive d m) (List.replicate 18 .call) = some t ∧ t.pc = .poll ∧
      (∀ e, t.inbound e = []) ∧ t.sent d.other = s.sent d.other ++ frame m.val ∧
        t.sent d = s.sent d := by
  obtain ⟨hpc, hin, -⟩ := hs
  obtain ⟨parts, hne⟩ := m
  have hempty : s.inbound = fun _ => [] := funext hin
  obtain ⟨pc, message, revents, recvOk, inbound, arrived, received, sent, turn, passes⟩ := s
  subst hpc hempty hm
  cases d with
  | frontend =>
      refine ⟨_, rfl, rfl, ?_, ?_, ?_⟩
      · intro e
        cases e <;> rfl
      · simp [Loop.put, Loop.endTurn, Loop.take, Side.other, Loop.arrive, Message.empty]
      · simp [Loop.put, Loop.endTurn, Loop.take, Side.other, Loop.arrive]
  | backend =>
      refine ⟨_, rfl, rfl, ?_, ?_, ?_⟩
      · intro e
        cases e <;> rfl
      · simp [Loop.put, Loop.endTurn, Loop.take, Side.other, Loop.arrive, Message.empty]
      · simp [Loop.put, Loop.endTurn, Loop.take, Side.other, Loop.arrive]

/-- An idle broker passes a message of three parts on and is idle again. -/
theorem Loop.Rests.relay {s : Loop} (hs : s.Rests) (d : Side) {m : Multipart} {a b c : Bytes}
    (hm : m.val = [a, b, c]) :
    ∃ t, run step (s.arrive d m) (List.replicate 18 .call) = some t ∧ t.Rests ∧
      messages (t.sent d.other) = messages (s.sent d.other) ++ [m.val] ∧ t.sent d = s.sent d := by
  obtain ⟨t, hr, hpc, hin, hother, hsame⟩ := run_of_rests hs d hm
  obtain ⟨hmessages, hpending⟩ := split_append_frame (s.sent d.other) m.property
  rw [hs.sent d.other, List.nil_append, ← hother] at hmessages
  rw [← hother] at hpending
  refine ⟨t, hr, ⟨hpc, hin, ?_⟩, hmessages, hsame⟩
  intro e
  by_cases he : e = d
  · rw [he, hsame]
    exact hs.sent d
  · have heq : e = d.other := by cases e <;> cases d <;> simp_all [Side.other]
    rw [heq]
    exact hpending

end BrokerLoop

namespace RequestReply

open BrokerLoop

variable {C W : Type}

/-- No message is under way but those that wait at a client, on either
side of the broker. -/
structure Quiet (s : System C W) : Prop where
  broker : s.broker.Rests
  dealt : s.dealt = (messages (s.broker.sent .backend)).length
  routed : s.routed = (messages (s.broker.sent .frontend)).length
  serving : ∀ w, s.serving w = none
  toWorker : ∀ w, s.toWorker w = []
  toDealer : ∀ w, s.toDealer w = []

def Phase.asked : Phase → List (List Bytes)
  | .called request => [reqSend request]
  | .idle | .replied _ => []

def Phase.answered : Phase → List (List Bytes)
  | .replied reply => [reqSend reply]
  | .idle | .called _ => []

def Phase.waits : Phase → Bool
  | .idle => false
  | .called _ | .replied _ => true

structure Settled (s : System C W) (p : C → Phase) : Prop where
  quiet : Quiet s
  toRouter : ∀ c, s.toRouter c = (p c).asked
  toClient : ∀ c, s.toClient c = (p c).answered
  waiting : ∀ c, s.waiting c = (p c).waits

theorem settled_start : Settled (.start : System C W) fun _ => .idle where
  quiet := ⟨rests_start, rfl, rfl, fun _ => rfl, fun _ => rfl, fun _ => rfl⟩
  toRouter := fun _ => rfl
  toClient := fun _ => rfl
  waiting := fun _ => rfl

variable [DecidableEq C]

/-- The client's phase changes and with it what waits at the client. -/
theorem Settled.update {s t : System C W} {p : C → Phase} (hs : Settled s p) {c : C} {x : Phase}
    (ht : Quiet t) (hrouter : t.toRouter = Function.update s.toRouter c x.asked)
    (hclient : t.toClient = Function.update s.toClient c x.answered)
    (hwaiting : t.waiting = Function.update s.waiting c x.waits) :
    Settled t (Function.update p c x) := by
  have hcase {γ : Type} (f : C → γ) (g : Phase → γ) (hf : ∀ c', f c' = g (p c')) (c' : C) :
      Function.update f c (g x) c' = g (Function.update p c x c') := by
    by_cases hc : c' = c
    · subst hc
      simp
    · simp [Function.update_of_ne hc, hf]
  refine ⟨ht, ?_, ?_, ?_⟩
  · rw [hrouter]
    exact hcase s.toRouter Phase.asked hs.toRouter
  · rw [hclient]
    exact hcase s.toClient Phase.answered hs.toClient
  · rw [hwaiting]
    exact hcase s.waiting Phase.waits hs.waiting

variable [DecidableEq W] {net : Routing C} {answer : W → Bytes → Bytes} {s : System C W}
variable {p : C → Phase}

theorem run_relay {n : ℕ} {b : Loop}
    (h : run BrokerLoop.step s.broker (List.replicate n .call) = some b) :
    run (step net answer) s (List.replicate n .relay) = some { s with broker := b } := by
  induction n generalizing s with
  | zero =>
      obtain rfl : s.broker = b := Option.some.inj h
      rfl
  | succ n ih =>
      rw [List.replicate_succ] at h ⊢
      obtain ⟨b', hb', hr⟩ := run_cons_eq_some.mp h
      refine run_cons_eq_some.mpr ⟨{ s with broker := b' }, ?_, ih hr⟩
      rw [step, hb']
      rfl

variable (net) (answer) in
/-- The request of a client goes to a worker. -/
theorem run_request (hs : Quiet s) {c : C} {request : Bytes}
    (hq : s.toRouter c = [reqSend request]) (w : W) :
    ∃ b : Loop, b.Rests ∧
      (messages (b.sent .backend)).length = (messages (s.broker.sent .backend)).length + 1 ∧
      b.sent .frontend = s.broker.sent .frontend ∧
      run (step net answer) s (.uplink c :: (List.replicate 18 .relay ++ [.deal w])) =
        some { s with
          broker := b
          dealt := s.dealt + 1
          toRouter := Function.update s.toRouter c []
          toWorker := Function.update s.toWorker w [[net.ident c, [], request]] } := by
  obtain ⟨b, hr, hb, hmessages, hsame⟩ := hs.broker.relay .frontend
    (m := routerReceive (net.ident c) (reqSend request)) rfl
  have hlast : (messages (b.sent .backend))[s.dealt]? = some [net.ident c, [], request] := by
    rw [hs.dealt]
    rw [Side.other] at hmessages
    simp [hmessages, routerReceive, reqSend]
  refine ⟨b, hb, by simpa [Side.other] using congrArg List.length hmessages, hsame, ?_⟩
  have hup : step net answer s (.uplink c) = some { s with
      toRouter := Function.update s.toRouter c []
      broker := s.broker.arrive .frontend (routerReceive (net.ident c) (reqSend request)) } := by
    simp [step, hq]
  refine run_cons_eq_some.mpr ⟨_, hup, ?_⟩
  rw [run_append, run_relay hr, Option.bind_some]
  refine run_cons_eq_some.mpr ⟨_, ?_, rfl⟩
  simp [step, hlast, hs.toWorker]

variable (net) (answer) in
/-- A reply on its way to the broker goes to the client. -/
theorem run_reply {c : C} (reply : Bytes) {w : W} (hs : s.broker.Rests)
    (hrouted : s.routed = (messages (s.broker.sent .frontend)).length)
    (hq : s.toDealer w = [repSend [net.ident c, []] reply]) :
    ∃ b : Loop, b.Rests ∧ b.sent .backend = s.broker.sent .backend ∧
      (messages (b.sent .frontend)).length = (messages (s.broker.sent .frontend)).length + 1 ∧
      run (step net answer) s (.downlink w :: (List.replicate 18 .relay ++ [.route])) =
        some { s with
          broker := b
          routed := s.routed + 1
          toDealer := Function.update s.toDealer w []
          toClient := Function.update s.toClient c (s.toClient c ++ [reqSend reply]) } := by
  obtain ⟨b, hr, hb, hmessages, hsame⟩ := hs.relay .backend
    (m := repSend [net.ident c, []] reply) rfl
  have hlast : (messages (b.sent .frontend))[s.routed]? = some [net.ident c, [], reply] := by
    rw [hrouted]
    rw [Side.other] at hmessages
    simp [hmessages, repSend]
  refine ⟨b, hb, hsame, by simpa [Side.other] using congrArg List.length hmessages, ?_⟩
  have hdown : step net answer s (.downlink w) = some { s with
      toDealer := Function.update s.toDealer w []
      broker := s.broker.arrive .backend (repSend [net.ident c, []] reply) } := by
    simp [step, hq]
  refine run_cons_eq_some.mpr ⟨_, hdown, ?_⟩
  rw [run_append, run_relay hr, Option.bind_some]
  refine run_cons_eq_some.mpr ⟨_, ?_, rfl⟩
  simp [step, hlast, routerSend, net.peer_ident, reqSend]

/-! ## From the service to the network -/

theorem Settled.call (hs : Settled s p) {c : C} (hc : p c = .idle) (request : Bytes) :
    ∃ t, step net answer s (.send c request) = some t ∧
      Settled t (Function.update p c (.called request)) := by
  have hidle : s.waiting c = false := by rw [hs.waiting, hc, Phase.waits]
  have hempty : s.toRouter c = [] := by rw [hs.toRouter, hc, Phase.asked]
  have hnone : s.toClient c = [] := by rw [hs.toClient, hc, Phase.answered]
  refine ⟨_, by rw [step, hidle, if_neg Bool.false_ne_true], hs.update ?_ ?_ ?_ rfl⟩
  · exact ⟨hs.quiet.broker, hs.quiet.dealt, hs.quiet.routed, hs.quiet.serving, hs.quiet.toWorker,
      hs.quiet.toDealer⟩
  · rw [hempty]
    rfl
  · rw [Phase.answered, ← hnone, Function.update_eq_self]

theorem Settled.reply (hs : Settled s p) {c : C} {reply : Bytes} (hc : p c = .replied reply) :
    ∃ t, step net answer s (.receive c) = some t ∧ Settled t (Function.update p c .idle) ∧
      seeEvent net s (.receive c) = [.replied c reply] := by
  have hwait : s.waiting c = true := by rw [hs.waiting, hc, Phase.waits]
  have hempty : s.toRouter c = [] := by rw [hs.toRouter, hc, Phase.asked]
  have hone : s.toClient c = [reqSend reply] := by rw [hs.toClient, hc, Phase.answered]
  refine ⟨_, by rw [step, hwait, hone]; rfl, hs.update ?_ ?_ rfl rfl, ?_⟩
  · exact ⟨hs.quiet.broker, hs.quiet.dealt, hs.quiet.routed, hs.quiet.serving, hs.quiet.toWorker,
      hs.quiet.toDealer⟩
  · rw [Phase.asked, ← hempty, Function.update_eq_self]
  · rw [seeEvent, hone]
    rfl

variable (net) (answer) in
/-- A worker that is free takes the request that came to it and answers. -/
theorem run_work {w : W} {c : C} (request : Bytes) (hidle : s.serving w = none)
    (hq : s.toWorker w = [[net.ident c, [], request]]) (hnone : s.toDealer w = []) :
    ∃ t, step net answer s (.take w) = some t ∧
      seeEvent net s (.take w) = [.served c w request] ∧
      step net answer t (.answer w) = some { s with
        toWorker := Function.update s.toWorker w []
        toDealer := Function.update s.toDealer w [repSend [net.ident c, []] (answer w request)]
        handed := s.handed ++ [⟨w, [net.ident c, []], request⟩] } := by
  have hreceive : repReceive [net.ident c, [], request] = some ([net.ident c, []], [request]) :=
    repReceive_ident (net.ident_ne_nil c) _
  refine ⟨_, by simp only [step, hidle, hq, hreceive]; rfl, ?_, ?_⟩
  · simp [seeEvent, hq, hreceive, net.peer_ident]
  · have hback : Function.update s.serving w none = s.serving := by
      rw [← hidle, Function.update_eq_self]
    simp [step, hnone, hback]

theorem Settled.serve (hs : Settled s p) {c : C} {request : Bytes} (hc : p c = .called request)
    (w : W) : ∃ es t, run (step net answer) s es = some t ∧
      trace (step net answer) (seeEvent net) s es = [.served c w request] ∧
      Settled t (Function.update p c (.replied (answer w request))) := by
  have hq : s.toRouter c = [reqSend request] := by rw [hs.toRouter, hc, Phase.asked]
  have hnone : s.toClient c = [] := by rw [hs.toClient, hc, Phase.answered]
  have hwait : s.waiting c = true := by rw [hs.waiting, hc, Phase.waits]
  obtain ⟨b, hb, hdealt, hsame, hask⟩ :=
    run_request net answer hs.quiet hq w
  let s₁ : System C W := { s with
    broker := b
    dealt := s.dealt + 1
    toRouter := Function.update s.toRouter c []
    toWorker := Function.update s.toWorker w [[net.ident c, [], request]] }
  obtain ⟨v, htake, hsee, hanswer⟩ := run_work net answer (s := s₁) (c := c) request
    (hs.quiet.serving w) (by simp [s₁]) (hs.quiet.toDealer w)
  have hempty : Function.update s₁.toWorker w [] = s.toWorker := by
    rw [← hs.quiet.toWorker w]
    simp [s₁]
  rw [hempty] at hanswer
  let s₂ : System C W := { s₁ with
    toWorker := s.toWorker
    toDealer := Function.update s.toDealer w [repSend [net.ident c, []] (answer w request)]
    handed := s.handed ++ [⟨w, [net.ident c, []], request⟩] }
  obtain ⟨b', hb', hsame', hrouted, hreply⟩ := run_reply net answer (s := s₂) (c := c) (w := w)
    (answer w request) hb (by rw [hsame, hs.quiet.routed]) (by simp [s₂])
  have hdealer : Function.update s₂.toDealer w [] = s.toDealer := by
    rw [← hs.quiet.toDealer w]
    simp [s₂]
  rw [hdealer] at hreply
  let s₃ : System C W := { s₂ with
    broker := b'
    routed := s₂.routed + 1
    toDealer := s.toDealer
    toClient := Function.update s₂.toClient c (s₂.toClient c ++ [reqSend (answer w request)]) }
  refine ⟨(.uplink c :: (List.replicate 18 .relay ++ [.deal w])) ++
    (.take w :: .answer w :: .downlink w :: (List.replicate 18 .relay ++ [.route])), s₃, ?_, ?_, ?_⟩
  · rw [run_append, hask, Option.bind_some]
    exact run_cons_eq_some.mpr ⟨v, htake, run_cons_eq_some.mpr ⟨s₂, hanswer, hreply⟩⟩
  · have hbefore : trace (step net answer) (seeEvent net) s
        (.uplink c :: (List.replicate 18 .relay ++ [.deal w])) = [] :=
      trace_eq_nil (by simp [seeEvent]) s
    have hafter : trace (step net answer) (seeEvent net) s₂
        (.downlink w :: (List.replicate 18 .relay ++ [.route])) = [] :=
      trace_eq_nil (by simp [seeEvent]) s₂
    rw [trace_append hask, hbefore, trace_cons htake, trace_cons hanswer, hafter, hsee]
    rfl
  · apply hs.update
    · refine ⟨hb', ?_, ?_, hs.quiet.serving, hs.quiet.toWorker, hs.quiet.toDealer⟩
      · rw [hsame', hdealt, ← hs.quiet.dealt]
      · rw [hrouted, hsame, ← hs.quiet.routed]
    · rfl
    · simp [s₃, s₂, s₁, hnone, Phase.answered]
    · rw [Phase.waits, ← hwait, Function.update_eq_self]

/-- The network can play every step of the service. -/
def ofService (net : Routing C) (answer : W → Bytes → Bytes) :
    Simulation (serve answer) seeOp (step net answer) (seeEvent net) where
  rel p s := Settled s p
  answers := by
    intro p s o q hs h
    cases o with
    | call c request =>
        cases hc : p c with
        | idle =>
            rw [serve, hc, Option.some.injEq] at h
            obtain ⟨t, ht, hsettled⟩ := hs.call hc request
            obtain ⟨hr, htrace⟩ := trace_singleton (seeEvent net) ht
            exact ⟨_, t, hr, htrace, h ▸ hsettled⟩
        | called _ => simp [serve, hc] at h
        | replied _ => simp [serve, hc] at h
    | serve c w =>
        cases hc : p c with
        | called request =>
            rw [serve, hc, Option.some.injEq] at h
            obtain ⟨es, t, hr, htrace, hsettled⟩ := hs.serve hc w
            exact ⟨es, t, hr, by rw [htrace, seeOp, hc], h ▸ hsettled⟩
        | idle => simp [serve, hc] at h
        | replied _ => simp [serve, hc] at h
    | reply c =>
        cases hc : p c with
        | replied reply =>
            rw [serve, hc, Option.some.injEq] at h
            obtain ⟨t, ht, hsettled, hsee⟩ := hs.reply hc
            obtain ⟨hr, htrace⟩ := trace_singleton (seeEvent net) ht
            exact ⟨_, t, hr, by rw [htrace, hsee, seeOp, hc], h ▸ hsettled⟩
        | idle => simp [serve, hc] at h
        | called _ => simp [serve, hc] at h

/-- The clients' loops, the broker and the workers' loops show exactly the
traces of the service: any calls, services and returns in the order in
which some run of the network shows them could have been shown by a
service without sockets, and the other way round. -/
theorem traces_iff_service (net : Routing C) (answer : W → Bytes → Bytes)
    (os : List (Sight C W)) :
    Traces (step net answer) (seeEvent net) .start os ↔
      Traces (serve answer) seeOp (fun _ => .idle) os := by
  constructor
  · apply (toService net answer).traces
    exact ⟨⟨_, located_start⟩, funext fun c => (located_start.phase_eq c).symm⟩
  · exact (ofService net answer).traces settled_start

end RequestReply

end ZeromqAgent
