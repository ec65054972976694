import ZeromqAgent.Progress

/-!
# The loops of the test program around the broker

Clients, broker and workers again, with the loops that `RequestReply` leaves
out: each client and each worker makes as many iterations as the constant
says, and any of its calls may fail. A REQ socket rejects a send while a
reply is outstanding and a receive while none is; a REP socket rejects a
receive while a request is unanswered. When the loop of a worker has ended
its socket is closed: what it has sent still goes out, but it is dealt no
more requests, and those it was dealt and has not received are lost. A
DEALER socket without a peer waits before it sends the first part of a
message.
-/

namespace ZeromqAgent

namespace RequestReply

open BrokerLoop Framing

/-! ## What an event of the network does -/

variable {C W : Type} [DecidableEq C] [DecidableEq W]

inductive Fires (net : Routing C) (answer : W → Bytes → Bytes) (s : System C W) :
    Event C W → System C W → Prop
  | send (c : C) (request : Bytes) (hidle : s.waiting c = false) :
      Fires net answer s (.send c request)
        { s with
          waiting := Function.update s.waiting c true
          toRouter := Function.update s.toRouter c (s.toRouter c ++ [reqSend request])
          sent := Function.update s.sent c (s.sent c ++ [request]) }
  | uplink (c : C) (m : List Bytes) (rest : List (List Bytes)) (hq : s.toRouter c = m :: rest) :
      Fires net answer s (.uplink c)
        { s with
          toRouter := Function.update s.toRouter c rest
          broker := s.broker.arrive .frontend (routerReceive (net.ident c) m) }
  | relay (b : Loop) (hb : BrokerLoop.step s.broker .call = some b) :
      Fires net answer s .relay { s with broker := b }
  | deal (w : W) (m : List Bytes) (hm : (messages (s.broker.sent .backend))[s.dealt]? = some m) :
      Fires net answer s (.deal w)
        { s with
          dealt := s.dealt + 1
          toWorker := Function.update s.toWorker w (s.toWorker w ++ [m]) }
  | take (w : W) (m : List Bytes) (rest : List (List Bytes)) (envelope : List Bytes) (body : Bytes)
      (parts : List Bytes) (hidle : s.serving w = none) (hq : s.toWorker w = m :: rest)
      (hm : repReceive m = some (envelope, body :: parts)) :
      Fires net answer s (.take w)
        { s with
          serving := Function.update s.serving w (some (envelope, body))
          toWorker := Function.update s.toWorker w rest
          handed := s.handed ++ [⟨w, envelope, body⟩] }
  | answer (w : W) (envelope : List Bytes) (body : Bytes)
      (hq : s.serving w = some (envelope, body)) :
      Fires net answer s (.answer w)
        { s with
          serving := Function.update s.serving w none
          toDealer := Function.update s.toDealer w
            (s.toDealer w ++ [repSend envelope (answer w body)]) }
  | downlink (w : W) (m : Multipart) (rest : List Multipart) (hq : s.toDealer w = m :: rest) :
      Fires net answer s (.downlink w)
        { s with
          toDealer := Function.update s.toDealer w rest
          broker := s.broker.arrive .backend m }
  | route (m : List Bytes) (hm : (messages (s.broker.sent .frontend))[s.routed]? = some m) :
      Fires net answer s .route
        { s with
          routed := s.routed + 1
          toClient := routerSend net s.toClient m }
  | receive (c : C) (m : List Bytes) (rest : List (List Bytes)) (body : Bytes)
      (hwait : s.waiting c = true) (hq : s.toClient c = m :: rest)
      (hm : reqReceive m = some body) :
      Fires net answer s (.receive c)
        { s with
          waiting := Function.update s.waiting c false
          toClient := Function.update s.toClient c rest
          taken := Function.update s.taken c (s.taken c ++ [body]) }

variable {net : Routing C} {answer : W → Bytes → Bytes} {s t : System C W} {e : Event C W}

theorem fires (h : step net answer s e = some t) : Fires net answer s e t := by
  cases e with
  | send c request =>
      obtain ⟨hidle, h⟩ := Option.ite_none_left_eq_some.mp h
      exact Option.some.inj h ▸ .send c request (Bool.eq_false_of_not_eq_true hidle)
  | uplink c =>
      cases hq : s.toRouter c with
      | nil => simp [step, hq] at h
      | cons m rest =>
          simp only [step, hq, Option.some.injEq] at h
          exact h ▸ .uplink c m rest hq
  | relay =>
      obtain ⟨b, hb, rfl⟩ := Option.map_eq_some_iff.mp h
      exact .relay b hb
  | deal w =>
      cases hm : (messages (s.broker.sent .backend))[s.dealt]? with
      | none => simp [step, hm] at h
      | some m =>
          simp only [step, hm, Option.some.injEq] at h
          exact h ▸ .deal w m hm
  | take w =>
      simp only [step] at h
      split at h
      · next m rest hidle hq =>
          split at h
          · next envelope body parts hm =>
              exact Option.some.inj h ▸ .take w m rest envelope body parts hidle hq hm
          · cases h
      · cases h
  | answer w =>
      cases hq : s.serving w with
      | none => simp [step, hq] at h
      | some r =>
          obtain ⟨envelope, body⟩ := r
          simp only [step, hq, Option.some.injEq] at h
          exact h ▸ .answer w envelope body hq
  | downlink w =>
      cases hq : s.toDealer w with
      | nil => simp [step, hq] at h
      | cons m rest =>
          simp only [step, hq, Option.some.injEq] at h
          exact h ▸ .downlink w m rest hq
  | route =>
      cases hm : (messages (s.broker.sent .frontend))[s.routed]? with
      | none => simp [step, hm] at h
      | some m =>
          simp only [step, hm, Option.some.injEq] at h
          exact h ▸ .route m hm
  | receive c =>
      simp only [step] at h
      split at h
      · next m rest hwait hq =>
          obtain ⟨body, hm, rfl⟩ := Option.map_eq_some_iff.mp h
          exact .receive c m rest body hwait hq hm
      · cases h

theorem serving_of_ne {w : W} (htake : e ≠ .take w) (hanswer : e ≠ .answer w)
    (h : step net answer s e = some t) : t.serving w = s.serving w := by
  cases fires h with
  | take w' m rest envelope body parts hidle hq hm =>
      have hne : w ≠ w' := fun hw => htake (by rw [hw])
      exact Function.update_of_ne hne _ _
  | answer w' envelope body hq =>
      have hne : w ≠ w' := fun hw => hanswer (by rw [hw])
      exact Function.update_of_ne hne _ _
  | _ => rfl

theorem toWorker_of_ne {w : W} (htake : e ≠ .take w) (hdeal : e ≠ .deal w)
    (h : step net answer s e = some t) : t.toWorker w = s.toWorker w := by
  cases fires h with
  | take w' m rest envelope body parts hidle hq hm =>
      have hne : w ≠ w' := fun hw => htake (by rw [hw])
      exact Function.update_of_ne hne _ _
  | deal w' m hm =>
      have hne : w ≠ w' := fun hw => hdeal (by rw [hw])
      exact Function.update_of_ne hne _ _
  | _ => rfl

theorem taken_of_ne {c : C} (he : e ≠ .receive c) (h : step net answer s e = some t) :
    t.taken c = s.taken c := by
  cases fires h with
  | receive d m rest body hwait hq hm =>
      have hne : c ≠ d := fun hc => he (by rw [hc])
      exact Function.update_of_ne hne _ _
  | _ => rfl

/-! ## Where a client's message waits -/

/-- A message of the client waits at a stop behind the ROUTER socket. -/
def Waits (net : Routing C) (s : System C W) (p : Stop C W) (c : C) : Prop :=
  ∃ m ∈ contents s p, m.head? = some (net.ident c)

variable {T : C → Ticket C W}

theorem Located.mem_contents (hl : Located net answer s T) {p : Stop C W} {m : List Bytes} :
    m ∈ contents s p ↔ ∃ c, (T c).place = some p ∧ m = message net answer p c (T c) := by
  obtain ⟨is, -, hmem, heq⟩ := hl.carries p
  rw [heq, List.mem_map]
  simp only [hmem, eq_comm]

theorem Located.waits_iff (hl : Located net answer s T) {p : Stop C W}
    (hp : ∀ d, p ≠ .toRouter d ∧ p ≠ .toClient d) {c : C} :
    Waits net s p c ↔ (T c).place = some p := by
  have hhead (d : C) : (message net answer p d (T d)).head? = some (net.ident d) := by
    cases p with
    | toRouter d => exact ((hp d).1 rfl).elim
    | toClient d => exact ((hp d).2 rfl).elim
    | _ => rfl
  constructor
  · rintro ⟨m, hm, hident⟩
    obtain ⟨d, hd, rfl⟩ := hl.mem_contents.mp hm
    rw [hhead] at hident
    obtain rfl := net.ident_injective (Option.some.inj hident)
    exact hd
  · intro hc
    exact ⟨_, hl.mem_contents.mpr ⟨c, hc, rfl⟩, hhead c⟩

/-- What a client receives has come to it. -/
theorem Located.place_of_receive (hl : Located net answer s T) {c : C}
    (h : step net answer s (.receive c) = some t) : (T c).place = some (.toClient c) := by
  cases fires h with
  | receive c m rest body hwait hq hm =>
      have hmem : m ∈ contents s (.toClient c) := by
        rw [show contents s (.toClient c) = m :: rest from hq]
        exact List.mem_cons_self
      obtain ⟨d, hd, -⟩ := hl.mem_contents.mp hmem
      obtain rfl := (hl.describes d).ok.own c (Or.inr hd)
      exact hd

/-- A broker about to send on a part of a request has one that no worker
has had. -/
theorem Located.exists_asking (hl : Located net answer s T) (hlive : Live s) {more : Bool}
    (hpc : s.broker.pc = .send .frontend more) : ∃ c, (T c).place = some .asking := by
  have hlt := hlive.dealt_le.trans_lt ((hl.relayed .frontend).lt_of_send hpc)
  have hmem : (s.broker.arrived .frontend)[s.dealt] ∈ contents s .asking := by
    rw [contents, List.drop_eq_getElem_cons hlt]
    exact List.mem_cons_self
  obtain ⟨c, hc, -⟩ := hl.mem_contents.mp hmem
  exact ⟨c, hc⟩

end RequestReply

namespace Brokered

open BrokerLoop Framing RequestReply Stations Transition

/-! ## The system -/

inductive Phase where
  | receiving
  | sending
  | sleeping
  deriving DecidableEq

/-- The sockets, the connections and the broker, and where the loops are:
`left` and `workerLeft` are the iterations that have not ended, `receiving`
tells which of its two calls a client is at. -/
structure System (C W : Type) where
  sockets : RequestReply.System C W
  left : C → ℕ
  receiving : C → Bool
  workerLeft : W → ℕ
  phase : W → Phase

def System.start {C W : Type} (n m : ℕ) : System C W where
  sockets := .start
  left := fun _ => n
  receiving := fun _ => false
  workerLeft := fun _ => m
  phase := fun _ => .receiving

/-- What happens between the calls of the loops. -/
inductive Carry (C W : Type) where
  | uplink (c : C)
  | relay
  | deal (w : W)
  | downlink (w : W)
  | route

def Carry.event {C W : Type} : Carry C W → RequestReply.Event C W
  | .uplink c => .uplink c
  | .relay => .relay
  | .deal w => .deal w
  | .downlink w => .downlink w
  | .route => .route

/-- The calls of the loops, with whether they fail for reasons of their own;
`rest` ends the sleep of a worker and its iteration. -/
inductive Event (C W : Type) where
  | send (c : C) (request : Bytes) (fails : Bool)
  | receive (c : C) (fails : Bool)
  | take (w : W) (fails : Bool)
  | answer (w : W) (fails : Bool)
  | rest (w : W)
  | carry (e : Carry C W)

def Event.fails {C W : Type} : Event C W → Bool
  | .send _ _ fails | .receive _ fails | .take _ fails | .answer _ fails => fails
  | .rest _ | .carry _ => false

/-- The broker's next call is to send the first part of a request, and no
worker is connected. -/
structure System.Blocked {C W : Type} (s : System C W) : Prop where
  sending : ∃ more, s.sockets.broker.pc = .send .frontend more
  first : pending (s.sockets.broker.sent .backend) = []
  ended : ∀ w, s.workerLeft w = 0

instance {C W : Type} [Fintype W] (s : System C W) : Decidable s.Blocked :=
  decidable_of_iff ((∃ more, s.sockets.broker.pc = .send .frontend more) ∧
    pending (s.sockets.broker.sent .backend) = [] ∧ ∀ w, s.workerLeft w = 0)
    ⟨fun h => ⟨h.1, h.2.1, h.2.2⟩, fun h => ⟨h.1, h.2, h.3⟩⟩

def System.Lets {C W : Type} (s : System C W) : Carry C W → Prop
  | .relay => ¬ s.Blocked
  | .deal w => s.workerLeft w ≠ 0
  | .uplink _ | .downlink _ | .route => True

instance {C W : Type} [Fintype W] (s : System C W) (e : Carry C W) : Decidable (s.Lets e) := by
  cases e <;> unfold System.Lets <;> infer_instance

variable {C W : Type} [DecidableEq C] [DecidableEq W]

def System.endIteration (s : System C W) (c : C) : System C W :=
  { s with
    left := Function.update s.left c (s.left c - 1)
    receiving := Function.update s.receiving c false }

def System.endWorkerIteration (s : System C W) (w : W) : System C W :=
  { s with
    workerLeft := Function.update s.workerLeft w (s.workerLeft w - 1)
    phase := Function.update s.phase w .receiving }

def System.enter (s : System C W) (w : W) (phase : Phase) : System C W :=
  { s with phase := Function.update s.phase w phase }

variable [Fintype W] (net : Routing C) (answer : W → Bytes → Bytes)

/-- A call that neither fails nor is rejected is an event of the sockets. -/
def step (s : System C W) : Event C W → Option (System C W)
  | .send c request fails =>
      if s.left c ≠ 0 ∧ s.receiving c = false then
        let s' := { s with receiving := Function.update s.receiving c true }
        if s.sockets.waiting c = true ∨ fails = true then some s'
        else (RequestReply.step net answer s.sockets (.send c request)).map fun u =>
          { s' with sockets := u }
      else none
  | .receive c fails =>
      if s.left c ≠ 0 ∧ s.receiving c = true then
        if s.sockets.waiting c = false ∨ fails = true then some (s.endIteration c)
        else (RequestReply.step net answer s.sockets (.receive c)).map fun u =>
          { s.endIteration c with sockets := u }
      else none
  | .take w fails =>
      if s.workerLeft w ≠ 0 ∧ s.phase w = .receiving then
        if (s.sockets.serving w).isSome = true ∨ fails = true then some (s.endWorkerIteration w)
        else (RequestReply.step net answer s.sockets (.take w)).map fun u =>
          { s.enter w .sending with sockets := u }
      else none
  | .answer w fails =>
      if s.workerLeft w ≠ 0 ∧ s.phase w = .sending then
        if fails then some (s.enter w .sleeping)
        else (RequestReply.step net answer s.sockets (.answer w)).map fun u =>
          { s.enter w .sleeping with sockets := u }
      else none
  | .rest w =>
      if s.workerLeft w ≠ 0 ∧ s.phase w = .sleeping then some (s.endWorkerIteration w) else none
  | .carry e =>
      if s.Lets e then
        (RequestReply.step net answer s.sockets e.event).map fun u => { s with sockets := u }
      else none

/-- What an event does. -/
inductive Step (s : System C W) : Event C W → System C W → Prop
  | sent (c : C) (request : Bytes) (u : RequestReply.System C W) (hleft : s.left c ≠ 0)
      (hphase : s.receiving c = false)
      (hu : RequestReply.step net answer s.sockets (.send c request) = some u) :
      Step s (.send c request false)
        { s with receiving := Function.update s.receiving c true, sockets := u }
  | notSent (c : C) (request : Bytes) (fails : Bool) (hleft : s.left c ≠ 0)
      (hphase : s.receiving c = false) (hwhy : s.sockets.waiting c = true ∨ fails = true) :
      Step s (.send c request fails) { s with receiving := Function.update s.receiving c true }
  | received (c : C) (u : RequestReply.System C W) (hleft : s.left c ≠ 0)
      (hphase : s.receiving c = true)
      (hu : RequestReply.step net answer s.sockets (.receive c) = some u) :
      Step s (.receive c false) { s.endIteration c with sockets := u }
  | notReceived (c : C) (fails : Bool) (hleft : s.left c ≠ 0) (hphase : s.receiving c = true)
      (hwhy : s.sockets.waiting c = false ∨ fails = true) :
      Step s (.receive c fails) (s.endIteration c)
  | took (w : W) (u : RequestReply.System C W) (hleft : s.workerLeft w ≠ 0)
      (hphase : s.phase w = .receiving)
      (hu : RequestReply.step net answer s.sockets (.take w) = some u) :
      Step s (.take w false) { s.enter w .sending with sockets := u }
  | notTaken (w : W) (fails : Bool) (hleft : s.workerLeft w ≠ 0) (hphase : s.phase w = .receiving)
      (hwhy : (s.sockets.serving w).isSome = true ∨ fails = true) :
      Step s (.take w fails) (s.endWorkerIteration w)
  | answered (w : W) (u : RequestReply.System C W) (hleft : s.workerLeft w ≠ 0)
      (hphase : s.phase w = .sending)
      (hu : RequestReply.step net answer s.sockets (.answer w) = some u) :
      Step s (.answer w false) { s.enter w .sleeping with sockets := u }
  | notAnswered (w : W) (hleft : s.workerLeft w ≠ 0) (hphase : s.phase w = .sending) :
      Step s (.answer w true) (s.enter w .sleeping)
  | rested (w : W) (hleft : s.workerLeft w ≠ 0) (hphase : s.phase w = .sleeping) :
      Step s (.rest w) (s.endWorkerIteration w)
  | carried (e : Carry C W) (u : RequestReply.System C W) (hlets : s.Lets e)
      (hu : RequestReply.step net answer s.sockets e.event = some u) :
      Step s (.carry e) { s with sockets := u }

variable {net answer} {s t : System C W}

theorem step_cases {e : Event C W} (h : step net answer s e = some t) :
    Step net answer s e t := by
  cases e with
  | send c request fails =>
      obtain ⟨⟨hleft, hphase⟩, hstep⟩ := Option.ite_none_right_eq_some.mp h
      dsimp only at hstep
      split at hstep
      · next hwhy => exact Option.some.inj hstep ▸ .notSent c request fails hleft hphase hwhy
      · next hwhy =>
          obtain rfl := Bool.eq_false_of_not_eq_true (not_or.mp hwhy).2
          obtain ⟨u, hu, rfl⟩ := Option.map_eq_some_iff.mp hstep
          exact .sent c request u hleft hphase hu
  | receive c fails =>
      obtain ⟨⟨hleft, hphase⟩, hstep⟩ := Option.ite_none_right_eq_some.mp h
      split at hstep
      · next hwhy => exact Option.some.inj hstep ▸ .notReceived c fails hleft hphase hwhy
      · next hwhy =>
          obtain rfl := Bool.eq_false_of_not_eq_true (not_or.mp hwhy).2
          obtain ⟨u, hu, rfl⟩ := Option.map_eq_some_iff.mp hstep
          exact .received c u hleft hphase hu
  | take w fails =>
      obtain ⟨⟨hleft, hphase⟩, hstep⟩ := Option.ite_none_right_eq_some.mp h
      split at hstep
      · next hwhy => exact Option.some.inj hstep ▸ .notTaken w fails hleft hphase hwhy
      · next hwhy =>
          obtain rfl := Bool.eq_false_of_not_eq_true (not_or.mp hwhy).2
          obtain ⟨u, hu, rfl⟩ := Option.map_eq_some_iff.mp hstep
          exact .took w u hleft hphase hu
  | answer w fails =>
      obtain ⟨⟨hleft, hphase⟩, hstep⟩ := Option.ite_none_right_eq_some.mp h
      split at hstep
      · next hfails =>
          subst hfails
          exact Option.some.inj hstep ▸ .notAnswered w hleft hphase
      · next hok =>
          obtain rfl := Bool.eq_false_of_not_eq_true hok
          obtain ⟨u, hu, rfl⟩ := Option.map_eq_some_iff.mp hstep
          exact .answered w u hleft hphase hu
  | rest w =>
      obtain ⟨⟨hleft, hphase⟩, hstep⟩ := Option.ite_none_right_eq_some.mp h
      exact Option.some.inj hstep ▸ .rested w hleft hphase
  | carry e =>
      obtain ⟨hlets, hstep⟩ := Option.ite_none_right_eq_some.mp h
      obtain ⟨u, hu, rfl⟩ := Option.map_eq_some_iff.mp hstep
      exact .carried e u hlets hu

/-! ## The sockets without the loops -/

/-- A call that fails leaves the sockets as they are, and what else happens
is an event of theirs, but not one with a worker that has ended. -/
theorem erase_step {e : Event C W} (h : step net answer s e = some t) :
    t.sockets = s.sockets ∨ ∃ f, RequestReply.step net answer s.sockets f = some t.sockets ∧
      ∀ w, s.workerLeft w = 0 → f ≠ .deal w ∧ f ≠ .take w ∧ f ≠ .answer w := by
  cases step_cases h with
  | sent c request u hleft hphase hu => exact .inr ⟨_, hu, fun w _ => by simp⟩
  | notSent c request fails hleft hphase hwhy => exact .inl rfl
  | received c u hleft hphase hu => exact .inr ⟨_, hu, fun w _ => by simp⟩
  | notReceived c fails hleft hphase hwhy => exact .inl rfl
  | took w u hleft hphase hu =>
      refine .inr ⟨_, hu, ?_⟩
      intro v hv
      have hne : w ≠ v := fun heq => hleft (heq ▸ hv)
      simp [hne]
  | notTaken w fails hleft hphase hwhy => exact .inl rfl
  | answered w u hleft hphase hu =>
      refine .inr ⟨_, hu, ?_⟩
      intro v hv
      have hne : w ≠ v := fun heq => hleft (heq ▸ hv)
      simp [hne]
  | notAnswered w hleft hphase => exact .inl rfl
  | rested w hleft hphase => exact .inl rfl
  | carried e u hlets hu =>
      refine .inr ⟨_, hu, ?_⟩
      intro v hv
      cases e with
      | deal w =>
          have hne : w ≠ v := fun heq => hlets (heq ▸ hv)
          simp [Carry.event, hne]
      | _ => simp [Carry.event]

/-- What the sockets keep without the loops they keep with them. -/
theorem preserves_sockets {P : RequestReply.System C W → Prop}
    (h : Preserves (RequestReply.step net answer) P) :
    Preserves (step net answer) fun s => P s.sockets := by
  intro s e t ht hs
  rcases erase_step ht with hsame | ⟨f, hf, -⟩
  · rw [hsame]
    exact hs
  · exact h hf hs

theorem workerLeft_le {e : Event C W} (h : step net answer s e = some t) (w : W) :
    t.workerLeft w ≤ s.workerLeft w := by
  have hend (v : W) : (s.endWorkerIteration v).workerLeft w ≤ s.workerLeft w := by
    by_cases hw : w = v
    · subst hw
      simp [System.endWorkerIteration]
    · simp [System.endWorkerIteration, Function.update_of_ne hw]
  cases step_cases h with
  | notTaken v fails hleft hphase hwhy => exact hend v
  | rested v hleft hphase => exact hend v
  | _ => exact le_rfl

/-! ## Requests that are lost -/

/-- A worker that has ended has the client's request and has not replied. -/
def Lost (net : Routing C) (s : System C W) (c : C) : Prop :=
  ∃ w, s.workerLeft w = 0 ∧
    (Waits net s.sockets (.toWorker w) c ∨ Waits net s.sockets (.serving w) c)

variable {T : C → Ticket C W}

/-- Nothing brings a lost request back. -/
theorem lost_step {e : Event C W} (h : step net answer s e = some t)
    (hl : Located net answer s.sockets T) {c : C} (hlost : Lost net s c) :
    Lost net t c ∧ t.sockets.taken c = s.sockets.taken c := by
  obtain ⟨w, hended, hwaits⟩ := hlost
  have hended' : t.workerLeft w = 0 := Nat.le_zero.mp (hended ▸ workerLeft_le h w)
  rcases erase_step h with hsame | ⟨f, hf, hnot⟩
  · rw [hsame]
    exact ⟨⟨w, hended', hsame ▸ hwaits⟩, rfl⟩
  · obtain ⟨hdeal, htake, hanswer⟩ := hnot w hended
    refine ⟨⟨w, hended', ?_⟩, taken_of_ne ?_ hf⟩
    · simpa only [Waits, contents, toWorker_of_ne htake hdeal hf,
        serving_of_ne htake hanswer hf] using hwaits
    · rintro rfl
      have hplace := hl.place_of_receive hf
      rw [hl.waits_iff (by simp), hl.waits_iff (by simp), hplace] at hwaits
      simp at hwaits

/-! ## The accounts of the loops -/

/-- An iteration of a worker that has received is counted with the requests
handed to it, and among those that have not ended. -/
def Phase.busy : Phase → ℕ
  | .receiving => 0
  | .sending | .sleeping => 1

/-- `ok` tells that no call has failed; then none was rejected either. -/
structure ClientAccount (ok : Prop) (n left : ℕ) (receiving waiting : Bool) (sent : ℕ) : Prop where
  left_ne : receiving = true → left ≠ 0
  sent_le : sent + left ≤ n + receiving.toNat
  exact : ok → receiving = waiting ∧ sent + left = n + receiving.toNat

structure WorkerAccount (ok : Prop) (m left : ℕ) (phase : Phase) (serving : Bool) (handed : ℕ) :
    Prop where
  left_ne : phase ≠ .receiving → left ≠ 0
  serves : phase = .sending → serving = true
  handed_le : handed + left ≤ m + phase.busy
  exact : ok → (serving = true → phase = .sending) ∧ handed + left = m + phase.busy

namespace ClientAccount

variable {ok : Prop} {n left sent : ℕ} {waiting : Bool}

theorem send (h : ClientAccount ok n left false waiting sent) (hleft : left ≠ 0) :
    ClientAccount ok n left true true (sent + 1) where
  left_ne := fun _ => hleft
  sent_le := by
    have hle := h.sent_le
    simp only [Bool.toNat_false, Bool.toNat_true] at hle ⊢
    omega
  exact := by
    intro hok
    refine ⟨rfl, ?_⟩
    have heq := (h.exact hok).2
    simp only [Bool.toNat_false, Bool.toNat_true] at heq ⊢
    omega

theorem notSend (h : ClientAccount ok n left false waiting sent) (hleft : left ≠ 0)
    (hok : ¬ ok) : ClientAccount ok n left true waiting sent where
  left_ne := fun _ => hleft
  sent_le := h.sent_le.trans (Nat.le_succ n)
  exact := fun h => (hok h).elim

theorem receive (h : ClientAccount ok n left true waiting sent) :
    ClientAccount ok n (left - 1) false false sent where
  left_ne := by simp
  sent_le := by
    have hle := h.sent_le
    have hleft := h.left_ne rfl
    simp only [Bool.toNat_false, Bool.toNat_true] at hle ⊢
    omega
  exact := by
    intro hok
    refine ⟨rfl, ?_⟩
    have heq := (h.exact hok).2
    have hleft := h.left_ne rfl
    simp only [Bool.toNat_false, Bool.toNat_true] at heq ⊢
    omega

theorem notReceive (h : ClientAccount ok n left true waiting sent) (hok : ¬ ok) :
    ClientAccount ok n (left - 1) false waiting sent where
  left_ne := by simp
  sent_le := h.receive.sent_le
  exact := fun h => (hok h).elim

theorem sent_le_n {receiving : Bool} (h : ClientAccount ok n left receiving waiting sent) :
    sent ≤ n := by
  have hle := h.sent_le
  cases receiving with
  | false => exact (Nat.le_add_right sent left).trans hle
  | true =>
      have hleft := h.left_ne rfl
      rw [Bool.toNat_true] at hle
      omega

end ClientAccount

namespace WorkerAccount

variable {ok : Prop} {m left handed : ℕ} {phase : Phase} {serving : Bool}

theorem take (h : WorkerAccount ok m left .receiving serving handed) (hleft : left ≠ 0) :
    WorkerAccount ok m left .sending true (handed + 1) where
  left_ne := fun _ => hleft
  serves := fun _ => rfl
  handed_le := by
    have hle := h.handed_le
    simp only [Phase.busy] at hle ⊢
    omega
  exact := by
    intro hok
    refine ⟨fun _ => rfl, ?_⟩
    have heq := (h.exact hok).2
    simp only [Phase.busy] at heq ⊢
    omega

theorem reply (h : WorkerAccount ok m left .sending serving handed) :
    WorkerAccount ok m left .sleeping false handed where
  left_ne := fun _ => h.left_ne (by simp)
  serves := by simp
  handed_le := h.handed_le
  exact := fun hok => ⟨by simp, (h.exact hok).2⟩

theorem notReply (h : WorkerAccount ok m left .sending serving handed) (hok : ¬ ok) :
    WorkerAccount ok m left .sleeping serving handed where
  left_ne := fun _ => h.left_ne (by simp)
  serves := by simp
  handed_le := h.handed_le
  exact := fun h => (hok h).elim

theorem rest (h : WorkerAccount ok m left .sleeping serving handed) :
    WorkerAccount ok m (left - 1) .receiving serving handed where
  left_ne := by simp
  serves := by simp
  handed_le := by
    have hle := h.handed_le
    have hleft := h.left_ne (by simp)
    simp only [Phase.busy] at hle ⊢
    omega
  exact := by
    intro hok
    obtain ⟨hserving, heq⟩ := h.exact hok
    have hleft := h.left_ne (by simp)
    simp only [Phase.busy] at heq ⊢
    exact ⟨fun hs => absurd (hserving hs) (by simp), by omega⟩

theorem notTake (h : WorkerAccount ok m left .receiving serving handed) (hok : ¬ ok) :
    WorkerAccount ok m (left - 1) .receiving serving handed where
  left_ne := by simp
  serves := by simp
  handed_le := (Nat.add_le_add_left (Nat.sub_le left 1) handed).trans h.handed_le
  exact := fun h => (hok h).elim

theorem handed_le_m (h : WorkerAccount ok m left phase serving handed) : handed ≤ m := by
  have hle := h.handed_le
  cases phase with
  | receiving => exact (Nat.le_add_right handed left).trans hle
  | sending | sleeping =>
      have hleft := h.left_ne (by simp)
      simp only [Phase.busy] at hle
      omega

/-- When no call failed, a worker that has ended has replied to as many
requests as it made iterations, and has none in hand. -/
theorem ended (h : WorkerAccount True m 0 phase serving handed) :
    handed = m ∧ serving = false := by
  obtain ⟨hserving, heq⟩ := h.exact trivial
  have hphase : phase = .receiving := by
    by_contra hphase
    exact h.left_ne hphase rfl
  subst hphase
  exact ⟨heq, Bool.eq_false_of_not_eq_true fun hs => by cases hserving hs⟩

end WorkerAccount

/-- How many requests were handed to a worker. -/
def handedBy (u : RequestReply.System C W) (w : W) : ℕ := u.handed.countP fun h => h.worker = w

structure Accounts (ok : Prop) (n m : ℕ) (s : System C W) : Prop where
  client : ∀ c, ClientAccount ok n (s.left c) (s.receiving c) (s.sockets.waiting c)
    (s.sockets.sent c).length
  worker : ∀ w, WorkerAccount ok m (s.workerLeft w) (s.phase w) (s.sockets.serving w).isSome
    (handedBy s.sockets w)

theorem accounts_start {D V : Type} [DecidableEq V] (ok : Prop) (n m : ℕ) :
    Accounts ok n m (.start n m : System D V) where
  client := fun _ => ⟨by simp [System.start], by simp [System.start, RequestReply.System.start],
    by simp [System.start, RequestReply.System.start]⟩
  worker := fun _ => ⟨by simp [System.start], by simp [System.start],
    by simp [System.start, RequestReply.System.start, handedBy],
    by simp [System.start, RequestReply.System.start, handedBy, Phase.busy]⟩

theorem clientAccount_step {ok : Prop} {n : ℕ} {e : Event C W} (hok : ok → e.fails = false)
    (h : step net answer s e = some t)
    (hclient : ∀ c, ClientAccount ok n (s.left c) (s.receiving c) (s.sockets.waiting c)
      (s.sockets.sent c).length) (d : C) :
    ClientAccount ok n (t.left d) (t.receiving d) (t.sockets.waiting d)
      (t.sockets.sent d).length := by
  have hd := hclient d
  cases step_cases h with
  | sent c request u hleft hphase hu =>
      cases fires hu with
      | send c request hidle =>
          by_cases hc : d = c
          · subst hc
            rw [hphase] at hd
            simpa using hd.send hleft
          · simpa [Function.update_of_ne hc] using hd
  | notSent c request fails hleft hphase hwhy =>
      by_cases hc : d = c
      · subst hc
        rw [hphase] at hd
        have hnot : ¬ ok := by
          intro h
          rcases hwhy with hwait | hfails
          · rw [← (hd.exact h).1] at hwait
            cases hwait
          · exact Bool.false_ne_true ((hok h).symm.trans hfails)
        simpa using hd.notSend hleft hnot
      · simpa [Function.update_of_ne hc] using hd
  | received c u hleft hphase hu =>
      cases fires hu with
      | receive c msg rest body hwait hq hm =>
          by_cases hc : d = c
          · subst hc
            rw [hphase] at hd
            simpa [System.endIteration] using hd.receive
          · simpa [System.endIteration, Function.update_of_ne hc] using hd
  | notReceived c fails hleft hphase hwhy =>
      by_cases hc : d = c
      · subst hc
        rw [hphase] at hd
        have hnot : ¬ ok := by
          intro h
          rcases hwhy with hidle | hfails
          · rw [← (hd.exact h).1] at hidle
            cases hidle
          · exact Bool.false_ne_true ((hok h).symm.trans hfails)
        simpa [System.endIteration] using hd.notReceive hnot
      · simpa [System.endIteration, Function.update_of_ne hc] using hd
  | took w u hleft hphase hu => cases fires hu; exact hd
  | answered w u hleft hphase hu => cases fires hu; exact hd
  | carried e u hlets hu => cases e <;> cases fires hu <;> exact hd
  | _ => exact hd

theorem workerAccount_step {ok : Prop} {m : ℕ} {e : Event C W} (hok : ok → e.fails = false)
    (h : step net answer s e = some t)
    (hworker : ∀ w, WorkerAccount ok m (s.workerLeft w) (s.phase w)
      (s.sockets.serving w).isSome (handedBy s.sockets w)) (v : W) :
    WorkerAccount ok m (t.workerLeft v) (t.phase v) (t.sockets.serving v).isSome
      (handedBy t.sockets v) := by
  have hv := hworker v
  cases step_cases h with
  | sent c request u hleft hphase hu => cases fires hu; exact hv
  | received c u hleft hphase hu => cases fires hu; exact hv
  | took w u hleft hphase hu =>
      cases fires hu with
      | take w msg rest envelope body parts hidle hq hm =>
          by_cases hw : v = w
          · subst hw
            rw [hphase] at hv
            simpa [System.enter, handedBy] using hv.take hleft
          · have hw' : ¬ w = v := Ne.symm hw
            simpa [System.enter, handedBy, Function.update_of_ne hw, hw'] using hv
  | notTaken w fails hleft hphase hwhy =>
      by_cases hw : v = w
      · subst hw
        rw [hphase] at hv
        have hnot : ¬ ok := by
          intro h
          rcases hwhy with hserving | hfails
          · cases (hv.exact h).1 hserving
          · exact Bool.false_ne_true ((hok h).symm.trans hfails)
        simpa [System.endWorkerIteration] using hv.notTake hnot
      · simpa [System.endWorkerIteration, Function.update_of_ne hw] using hv
  | answered w u hleft hphase hu =>
      cases fires hu with
      | answer w envelope body hq =>
          by_cases hw : v = w
          · subst hw
            rw [hphase] at hv
            simpa [System.enter, handedBy] using hv.reply
          · simpa [System.enter, handedBy, Function.update_of_ne hw] using hv
  | notAnswered w hleft hphase =>
      by_cases hw : v = w
      · subst hw
        rw [hphase] at hv
        have hnot : ¬ ok := fun h => Bool.false_ne_true (hok h).symm
        simpa [System.enter] using hv.notReply hnot
      · simpa [System.enter, Function.update_of_ne hw] using hv
  | rested w hleft hphase =>
      by_cases hw : v = w
      · subst hw
        rw [hphase] at hv
        simpa [System.endWorkerIteration] using hv.rest
      · simpa [System.endWorkerIteration, Function.update_of_ne hw] using hv
  | carried e u hlets hu => cases e <;> cases fires hu <;> exact hv
  | _ => exact hv

theorem accounts_step (ok : Prop) (n m : ℕ) :
    PreservesUnder (step net answer) (fun _ e => ok → e.fails = false) (Accounts ok n m) :=
  fun _ _ _ hok h hs =>
    ⟨clientAccount_step hok h hs.client, workerAccount_step hok h hs.worker⟩

/-- The accounts that hold whatever fails. -/
theorem accounts_preserved (n m : ℕ) : Preserves (step net answer) (Accounts False n m) :=
  fun _ _ _ h => accounts_step False n m False.elim h

/-! ## Where the loops end -/

/-- Nothing can happen, except that a call fails. -/
def Stuck (net : Routing C) (answer : W → Bytes → Bytes) (s : System C W) : Prop :=
  ∀ e : Event C W, e.fails = false → step net answer s e = none

theorem Stuck.carry (h : Stuck net answer s) {e : Carry C W} (hlets : s.Lets e) :
    RequestReply.step net answer s.sockets e.event = none := by
  have hcarry := h (.carry e) rfl
  rwa [step, if_pos hlets, Option.map_eq_none_iff] at hcarry

theorem Stuck.client (h : Stuck net answer s) (hl : Located net answer s.sockets T) {c : C}
    (hleft : s.left c ≠ 0) : s.sockets.waiting c = true ∧ s.sockets.toClient c = [] := by
  have hsend := h (.send c [] false) rfl
  have hreceive := h (.receive c false) rfl
  cases hphase : s.receiving c with
  | false =>
      rw [step, if_pos ⟨hleft, hphase⟩] at hsend
      cases hwait : s.sockets.waiting c <;> simp [hwait, RequestReply.step] at hsend
  | true =>
      rw [step, if_pos ⟨hleft, hphase⟩] at hreceive
      cases hwait : s.sockets.waiting c with
      | false => simp [hwait] at hreceive
      | true =>
          refine ⟨rfl, ?_⟩
          cases hq : s.sockets.toClient c with
          | nil => rfl
          | cons m rest =>
              have hm : m ∈ s.sockets.toClient c := by rw [hq]; exact List.mem_cons_self
              obtain ⟨d, -, rfl⟩ := (hl.mem_contents (p := .toClient c)).mp hm
              simp [hwait, RequestReply.step, hq, message, reqSend, reqReceive] at hreceive

theorem Stuck.worker {ok : Prop} {n m : ℕ} (h : Stuck net answer s)
    (hl : Located net answer s.sockets T) (ha : Accounts ok n m s) {w : W}
    (hleft : s.workerLeft w ≠ 0) :
    contents s.sockets (.toWorker w) = [] ∧ contents s.sockets (.serving w) = [] := by
  have htake := h (.take w false) rfl
  have hanswer := h (.answer w false) rfl
  have hrest := h (.rest w) rfl
  cases hphase : s.phase w with
  | sleeping =>
      rw [step, if_pos ⟨hleft, hphase⟩] at hrest
      cases hrest
  | sending =>
      obtain ⟨⟨envelope, body⟩, hserving⟩ :=
        Option.isSome_iff_exists.mp ((ha.worker w).serves hphase)
      rw [step, if_pos ⟨hleft, hphase⟩] at hanswer
      simp [RequestReply.step, hserving] at hanswer
  | receiving =>
      rw [step, if_pos ⟨hleft, hphase⟩] at htake
      cases hserving : s.sockets.serving w with
      | some r => simp [hserving] at htake
      | none =>
          refine ⟨?_, by simp [contents, hserving]⟩
          cases hq : s.sockets.toWorker w with
          | nil => exact hq
          | cons m rest =>
              have hm : m ∈ s.sockets.toWorker w := by rw [hq]; exact List.mem_cons_self
              obtain ⟨d, -, rfl⟩ := (hl.mem_contents (p := .toWorker w)).mp hm
              have hreceive := repReceive_ident (net.ident_ne_nil d) [(T d).request]
              simp [hserving, RequestReply.step, hq, message, hreceive] at htake

/-- What has come to the broker is passed on, unless the broker is held up. -/
theorem Stuck.passed (h : Stuck net answer s) (hlive : Live s.sockets) (hnot : ¬ s.Blocked)
    {d : Side} {n : ℕ} (hn : (messages (s.sockets.broker.sent d.other))[n]? = none) :
    (s.sockets.broker.arrived d).drop n = [] := by
  have hrelay : RequestReply.step net answer s.sockets .relay = none :=
    h.carry (e := .relay) hnot
  rw [List.drop_eq_nil_iff]
  by_contra hlt
  obtain ⟨t, ht⟩ := exists_relay hlive hn (Nat.lt_of_not_le hlt)
  rw [hrelay] at ht
  cases ht

theorem Stuck.asking (h : Stuck net answer s) (hlive : Live s.sockets) {w : W}
    (hleft : s.workerLeft w ≠ 0) : contents s.sockets .asking = [] := by
  apply h.passed hlive (fun hblocked => hleft (hblocked.ended w)) (d := .frontend)
  have hdeal : RequestReply.step net answer s.sockets (.deal w) = none :=
    h.carry (e := .deal w) hleft
  cases hm : (messages (s.sockets.broker.sent .backend))[s.sockets.dealt]? with
  | none => exact hm
  | some m => simp [RequestReply.step, hm] at hdeal

theorem Stuck.answering (h : Stuck net answer s) (hlive : Live s.sockets) (hnot : ¬ s.Blocked) :
    contents s.sockets .answering = [] := by
  apply h.passed hlive hnot (d := .backend)
  have hroute : RequestReply.step net answer s.sockets .route = none :=
    h.carry (e := .route) trivial
  cases hm : (messages (s.sockets.broker.sent .frontend))[s.sockets.routed]? with
  | none => exact hm
  | some m => simp [RequestReply.step, hm] at hroute

theorem Stuck.place {ok : Prop} {n m : ℕ} (h : Stuck net answer s)
    (hl : Located net answer s.sockets T) (hlive : Live s.sockets) (ha : Accounts ok n m s)
    {c : C} (hleft : s.left c ≠ 0) :
    (∃ w, s.workerLeft w = 0 ∧
      ((T c).place = some (.toWorker w) ∨ (T c).place = some (.serving w))) ∨
    ((T c).place = some .asking ∨ (T c).place = some .answering) ∧ ∀ w, s.workerLeft w = 0 := by
  obtain ⟨hwait, hclient⟩ := h.client hl hleft
  obtain ⟨p, hp⟩ : ∃ p, (T c).place = some p := by
    rw [← Option.isSome_iff_exists, (hl.describes c).waiting, hwait]
  obtain ⟨d, rest, hd, hq⟩ := hl.exists_head hp
  have hne : contents s.sockets p ≠ [] := by
    rw [hq]
    exact List.cons_ne_nil _ _
  have hended (hp : p = .asking ∨ p = .answering) (w : W) : s.workerLeft w = 0 := by
    by_contra hw
    rcases hp with rfl | rfl
    · exact hne (h.asking hlive hw)
    · exact hne (h.answering hlive fun hblocked => hw (hblocked.ended w))
  cases p with
  | toRouter d =>
      have huplink : RequestReply.step net answer s.sockets (.uplink d) = none :=
        h.carry (e := .uplink d) trivial
      cases hq : s.sockets.toRouter d with
      | nil => exact (hne hq).elim
      | cons m rest => simp [RequestReply.step, hq] at huplink
  | asking => exact .inr ⟨.inl hp, hended (.inl rfl)⟩
  | toWorker w =>
      refine .inl ⟨w, ?_, .inl hp⟩
      by_contra hw
      exact hne (h.worker hl ha hw).1
  | serving w =>
      refine .inl ⟨w, ?_, .inr hp⟩
      by_contra hw
      exact hne (h.worker hl ha hw).2
  | toDealer w =>
      have hdownlink : RequestReply.step net answer s.sockets (.downlink w) = none :=
        h.carry (e := .downlink w) trivial
      cases hq : s.sockets.toDealer w with
      | nil => simp [contents, hq] at hne
      | cons m rest => simp [RequestReply.step, hq] at hdownlink
  | answering => exact .inr ⟨.inr hp, hended (.inr rfl)⟩
  | toClient d =>
      obtain rfl := (hl.describes c).ok.own d (Or.inr hp)
      exact (hne hclient).elim

/-- When nothing can happen any more but that a call fails, a client that
has not ended waits for a reply: either a worker that has ended has its
request, or no worker is left and the request or its reply is in the
broker. Of a request that a worker has kept to its end nothing comes back,
whatever happens and whatever fails. -/
theorem waits_for_ever {n m : ℕ} {es : List (Event C W)}
    (hr : run (step net answer) (.start n m) es = some s) :
    (Stuck net answer s → ∀ c, s.left c ≠ 0 → s.sockets.waiting c = true ∧
      (Lost net s c ∨ (Waits net s.sockets .asking c ∨ Waits net s.sockets .answering c) ∧
        ∀ w, s.workerLeft w = 0)) ∧
    ∀ c, Lost net s c → ∀ fs t, run (step net answer) s fs = some t →
      Lost net t c ∧ t.sockets.taken c = s.sockets.taken c := by
  have hkeep := preserves_sockets (lively_step net answer)
  have hs := hkeep.run hr lively_start
  constructor
  · intro hstuck c hleft
    obtain ⟨⟨T, hl⟩, hlive⟩ := hs
    have ha := (accounts_preserved n m).run hr (accounts_start False n m)
    refine ⟨(hstuck.client hl hleft).1, ?_⟩
    rw [hl.waits_iff (by simp), hl.waits_iff (by simp)]
    refine (hstuck.place hl hlive ha hleft).imp_left ?_
    rintro ⟨w, hended, hplace⟩
    refine ⟨w, hended, ?_⟩
    rwa [hl.waits_iff (by simp), hl.waits_iff (by simp)]
  · intro c hlost fs t hrun
    have hlater : Preserves (step net answer) fun u =>
        (∃ T, Located net answer u.sockets T) ∧ Lost net u c ∧
          u.sockets.taken c = s.sockets.taken c := by
      rintro u e v h ⟨⟨T, hl⟩, hlost, htaken⟩
      obtain ⟨hlost, hsame⟩ := lost_step h hl hlost
      exact ⟨preserves_sockets (located_step net answer) h ⟨T, hl⟩, hlost, hsame.trans htaken⟩
    exact (hlater.run hrun ⟨hs.1, hlost, rfl⟩).2

def oneRouting : Routing Unit where
  ident := fun _ => [1]
  peer := fun _ => some ()
  ident_ne_nil := by simp
  peer_ident := fun _ => rfl

/-- A worker of one iteration gets a request and cannot reply. -/
def lostRequest : List (Event Unit Unit) :=
  [.send () [7] false, .carry (.uplink ())] ++ List.replicate 18 (.carry .relay) ++
    [.carry (.deal ()), .take () false, .answer () true, .rest ()]

theorem waits_for_ever_lostRequest : ∃ s,
    run (step oneRouting fun _ request => request) (.start 1 1) lostRequest = some s ∧
      s.left () = 1 ∧ s.sockets.waiting () = true ∧
      ∀ fs t, run (step oneRouting fun _ request => request) s fs = some t →
        t.sockets.taken () = [] := by
  obtain ⟨s, hr, hleft, hended, hserving, htaken⟩ : ∃ s,
      run (step oneRouting fun _ request => request) (.start 1 1) lostRequest = some s ∧
        s.left () = 1 ∧ s.workerLeft () = 0 ∧
        contents s.sockets (.serving ()) = [[[1], [], [7]]] ∧ s.sockets.taken () = [] :=
    ⟨_, rfl, rfl, rfl, rfl, rfl⟩
  have hlost : Lost oneRouting s () := ⟨(), hended, .inr ⟨_, hserving ▸ List.mem_cons_self, rfl⟩⟩
  have hstuck : Stuck oneRouting (fun _ request => request) s := by
    obtain rfl := Option.some.inj hr
    intro e hok
    cases e with
    | send c request fails | receive c fails | take w fails | answer w fails =>
        obtain rfl : fails = false := hok
        rfl
    | rest w => rfl
    | carry e => cases e <;> rfl
  have hwaits := waits_for_ever hr
  refine ⟨s, hr, hleft, (hwaits.1 hstuck () (by simp [hleft])).1, ?_⟩
  intro fs t hrun
  rw [(hwaits.2 () hlost fs t hrun).2, htaken]

/-! ## Counting the calls -/

section

variable [Fintype C]

def Phase.rank : Phase → ℕ
  | .receiving => 2
  | .sending => 1
  | .sleeping => 0

/-- What the loops have still to call and the network to do; a send gives
it no more than 61 events. -/
def System.calls (s : System C W) : ℕ :=
  work s.sockets + 62 * ∑ c, (2 * s.left c + (!s.receiving c).toNat) +
    ∑ w, (3 * s.workerLeft w + (s.phase w).rank)

theorem work_send {u v : RequestReply.System C W} {c : C} {request : Bytes}
    (h : RequestReply.step net answer u (.send c request) = some v) : work v = work u + 61 := by
  cases fires h with
  | send c request hidle =>
      have hload := load_update Stop.cost (q := contents u) (.toRouter c)
        (u.toRouter c ++ [reqSend request])
      have hcontents : contents { u with
          waiting := Function.update u.waiting c true
          toRouter := Function.update u.toRouter c (u.toRouter c ++ [reqSend request])
          sent := Function.update u.sent c (u.sent c ++ [request]) } =
            Function.update (contents u) (.toRouter c) (u.toRouter c ++ [reqSend request]) := by
        funext p
        cases p <;> simp [contents, Function.update_apply]
      simp only [contents, List.length_append, List.length_singleton, Stop.cost, Nat.succ_mul]
        at hload
      rw [work, work, hcontents]
      dsimp only
      omega

theorem calls_lt {e : Event C W} (h : step net answer s e = some t)
    (hl : Located net answer s.sockets T) (hlive : Live s.sockets) : t.calls < s.calls := by
  have hwork {f : RequestReply.Event C W} {u : RequestReply.System C W} (hf : ¬ f.asks)
      (hu : RequestReply.step net answer s.sockets f = some u) : work u < work s.sockets :=
    work_decreases net answer ⟨⟨T, hl⟩, hlive⟩ hf hu
  have henter (w : W) (phase : Phase) (hrank : phase.rank < (s.phase w).rank) :
      ∑ v, (3 * s.workerLeft v + ((s.enter w phase).phase v).rank) <
        ∑ v, (3 * s.workerLeft v + (s.phase v).rank) := by
    apply sum_lt_of_lt_of_eq (p := w)
    · simpa [System.enter] using hrank
    · intro v hv
      simp [System.enter, Function.update_of_ne hv]
  have hendWorker (w : W) (hleft : s.workerLeft w ≠ 0) :
      ∑ v, (3 * (s.endWorkerIteration w).workerLeft v + ((s.endWorkerIteration w).phase v).rank) <
        ∑ v, (3 * s.workerLeft v + (s.phase v).rank) := by
    apply sum_lt_of_lt_of_eq (p := w)
    · simp only [System.endWorkerIteration, Function.update_self, Phase.rank]
      omega
    · intro v hv
      simp [System.endWorkerIteration, Function.update_of_ne hv]
  cases step_cases h with
  | sent c request u hleft hphase hu =>
      have hmore := work_send hu
      have hless := sum_calls_first s.left hphase
      simp only [System.calls]
      omega
  | notSent c request fails hleft hphase hwhy =>
      have hless := sum_calls_first s.left hphase
      simp only [System.calls]
      omega
  | received c u hleft hphase hu =>
      have hlt := hwork (by simp [RequestReply.Event.asks]) hu
      have hless := sum_calls_second hleft hphase
      simp only [System.calls, System.endIteration] at hless ⊢
      omega
  | notReceived c fails hleft hphase hwhy =>
      have hless := sum_calls_second hleft hphase
      simp only [System.calls, System.endIteration] at hless ⊢
      omega
  | took w u hleft hphase hu =>
      have hlt := hwork (by simp [RequestReply.Event.asks]) hu
      have hless := henter w .sending (by simp [hphase, Phase.rank])
      simp only [System.calls, System.enter] at hless ⊢
      omega
  | notTaken w fails hleft hphase hwhy =>
      have hless := hendWorker w hleft
      simp only [System.calls, System.endWorkerIteration] at hless ⊢
      omega
  | answered w u hleft hphase hu =>
      have hlt := hwork (by simp [RequestReply.Event.asks]) hu
      have hless := henter w .sleeping (by simp [hphase, Phase.rank])
      simp only [System.calls, System.enter] at hless ⊢
      omega
  | notAnswered w hleft hphase =>
      have hless := henter w .sleeping (by simp [hphase, Phase.rank])
      simp only [System.calls, System.enter] at hless ⊢
      omega
  | rested w hleft hphase =>
      have hless := hendWorker w hleft
      simp only [System.calls, System.endWorkerIteration] at hless ⊢
      omega
  | carried e u hlets hu =>
      have hlt := hwork (by cases e <;> simp [Carry.event, RequestReply.Event.asks]) hu
      simp only [System.calls]
      omega

theorem sum_handedTo {u : RequestReply.System C W} (hl : Located net answer u T) :
    ∑ c, (handedTo net u c).length = ∑ w, handedBy u w := by
  have hclients : ∑ c, u.handed.countP (fun h => h.envelope = [net.ident c, []]) =
      u.handed.length := by
    apply sum_countP fun c (h : Handed W) => h.envelope = [net.ident c, []]
    intro h hh
    obtain ⟨c, hc⟩ := hl.issued h hh
    refine ⟨c, hc, ?_⟩
    intro d hd
    exact net.ident_injective (List.cons.inj (hd.symm.trans hc)).1
  have hworkers : ∑ w, handedBy u w = u.handed.length := by
    apply sum_countP fun w (h : Handed W) => h.worker = w
    intro h _
    exact ⟨h.worker, rfl, fun _ hw => hw.symm⟩
  rw [hworkers, ← hclients]
  apply Finset.sum_congr rfl
  intro c _
  rw [handedTo, List.length_filterMap_eq_countP]
  apply List.countP_congr
  intro h _
  by_cases hc : h.envelope = [net.ident c, []] <;> simp [hc]

/-- Nothing happens for ever. -/
theorem length_le_of_run {n m : ℕ} {es : List (Event C W)}
    (hr : run (step net answer) (.start n m) es = some s) :
    es.length ≤ 62 * (Fintype.card C * (2 * n + 1)) + Fintype.card W * (3 * m + 2) + 11 := by
  have hkeep := preserves_sockets (lively_step net answer)
  have hdecreases : Decreases (step net answer) (fun _ _ => True)
      (fun u => (∃ T, Located net answer u.sockets T) ∧ Live u.sockets) System.calls := by
    rintro u e v ⟨⟨T, hl⟩, hlive⟩ - h
    exact calls_lt h hl hlive
  have hlength := hdecreases.length_add_le (fun _ _ _ _ h hu => hkeep h hu) lively_start
    (meets_of_forall_mem (fun _ _ _ => trivial) _) hr
  have hl₀ : Located net answer (.start : RequestReply.System C W) _ := located_start
  have hstart : work (.start : RequestReply.System C W) ≤ 11 := by
    simpa [RequestReply.System.start] using hl₀.work_le live_start
  have hcalls : (System.start n m : System C W).calls =
      work (.start : RequestReply.System C W) + 62 * (Fintype.card C * (2 * n + 1)) +
        Fintype.card W * (3 * m + 2) := by
    simp [System.calls, System.start, Phase.rank]
  omega

/-- Whatever fails and whenever the loops end: the replies a client takes
are those to its requests, in their order; no client takes more replies
than it makes iterations, all of them together no more than the workers
make; and nothing happens for ever. -/
theorem replies_bounded {n m : ℕ} {es : List (Event C W)}
    (hr : run (step net answer) (.start n m) es = some s) :
    (∀ c, Agrees net answer s.sockets c ∧ (s.sockets.taken c).length ≤ n) ∧
    ∑ c, (s.sockets.taken c).length ≤ Fintype.card W * m ∧
    es.length ≤ 62 * (Fintype.card C * (2 * n + 1)) + Fintype.card W * (3 * m + 2) + 11 := by
  have hkeep := preserves_sockets (lively_step net answer)
  obtain ⟨⟨T, hl⟩, hlive⟩ := hkeep.run hr lively_start
  have ha := (accounts_preserved n m).run hr (accounts_start False n m)
  refine ⟨?_, ?_, ?_⟩
  · intro c
    have hagrees := hl.agrees c
    refine ⟨hagrees, le_trans ?_ (ha.client c).sent_le_n⟩
    rw [hagrees.outstanding]
    exact Nat.le_add_right _ _
  · calc ∑ c, (s.sockets.taken c).length
        ≤ ∑ c, (handedTo net s.sockets c).length := by
          apply Finset.sum_le_sum
          intro c _
          simpa using (hl.agrees c).taken_replies.length_le
      _ = ∑ w, handedBy s.sockets w := sum_handedTo hl
      _ ≤ ∑ _w : W, m := Finset.sum_le_sum fun w _ => (ha.worker w).handed_le_m
      _ = Fintype.card W * m := by simp
  · exact length_le_of_run hr

theorem replies_bounded_lostRequest : ∃ s,
    run (step oneRouting fun _ request => request) (.start 1 1) lostRequest = some s ∧
      lostRequest.length = 24 ∧ (s.sockets.taken ()).length ≤ 1 := by
  obtain ⟨s, hr⟩ : ∃ s,
      run (step oneRouting fun _ request => request) (.start 1 1) lostRequest = some s := ⟨_, rfl⟩
  exact ⟨s, hr, rfl, ((replies_bounded hr).1 ()).2⟩

/-- While every worker's iterations are enough for all requests, an ended
worker has had them all, and there is none left to be waited for. -/
theorem Stuck.finished [Nonempty W] {n m : ℕ} (h : Stuck net answer s)
    (hl : Located net answer s.sockets T) (hlive : Live s.sockets) (ha : Accounts True n m s)
    (hm : Fintype.card C * n ≤ m) (c : C) : s.left c = 0 := by
  by_contra hleft
  obtain ⟨w, hended⟩ : ∃ w, s.workerLeft w = 0 := by
    rcases h.place hl hlive ha hleft with ⟨w, hended, -⟩ | ⟨-, hall⟩
    · exact ⟨w, hended⟩
    · exact ⟨Classical.arbitrary W, hall _⟩
  have hworker (v : W) (hv : s.workerLeft v = 0) := (hv ▸ ha.worker v).ended
  -- each request of each client has been handed to a worker
  have hle (d : C) : (handedTo net s.sockets d).length ≤ (s.sockets.sent d).length := by
    simpa using (hl.agrees d).handed_sent.length_le
  have hserved (d : C) {p : Stop C W} (hp : (T d).place = some p) : p.served = true := by
    by_contra hnot
    have hd := hl.describes d
    have hsent := hd.ok.sent_length
    have hserved := hd.ok.served_length
    simp only [hp, Option.isSome_some, if_true, Option.any_some, if_neg hnot] at hsent hserved
    rw [hd.sent] at hsent
    rw [hd.served] at hserved
    have hsum : ∑ e, (handedTo net s.sockets e).length < ∑ _e : C, n := by
      refine Finset.sum_lt_sum (fun e _ => (hle e).trans (ha.client e).sent_le_n)
        ⟨d, Finset.mem_univ d, ?_⟩
      have hn := (ha.client d).sent_le_n
      omega
    have hall : ∑ _e : C, n = Fintype.card C * n := by simp
    have hone : handedBy s.sockets w ≤ ∑ v, handedBy s.sockets v :=
      Finset.single_le_sum (fun _ _ => Nat.zero_le _) (Finset.mem_univ w)
    rw [sum_handedTo hl] at hsum
    have hfull := (hworker w hended).1
    omega
  rcases h.place hl hlive ha hleft with ⟨v, hv, hp | hp⟩ | ⟨hp | hp, hall⟩
  · cases hserved c hp
  · have hmem : Waits net s.sockets (.serving v) c := (hl.waits_iff (by simp)).mpr hp
    obtain ⟨m, hm, -⟩ := hmem
    have hnone := Option.not_isSome_iff_eq_none.mp (Bool.not_eq_true _ ▸ (hworker v hv).2)
    simp [contents, hnone] at hm
  · cases hserved c hp
  · by_cases hblocked : s.Blocked
    · obtain ⟨more, hpc⟩ := hblocked.sending
      obtain ⟨d, hd⟩ := hl.exists_asking hlive hpc
      cases hserved d hd
    · have hmem : Waits net s.sockets .answering c := (hl.waits_iff (by simp)).mpr hp
      obtain ⟨m, hm, -⟩ := hmem
      rw [h.answering hlive hblocked] at hm
      cases hm

/-- If no call fails and each worker makes an iteration for every request
there can be, no run is longer than the bound, so that every run comes to a
point where nothing can happen; by then every client has ended with a reply
in each of its iterations. -/
theorem all_replied [Nonempty W] {n m : ℕ} (hm : Fintype.card C * n ≤ m) {es : List (Event C W)}
    (hr : run (step net answer) (.start n m) es = some s) (hok : ∀ e ∈ es, e.fails = false) :
    es.length ≤ 62 * (Fintype.card C * (2 * n + 1)) + Fintype.card W * (3 * m + 2) + 11 ∧
    (∃ fs t, (∀ e ∈ fs, e.fails = false) ∧ run (step net answer) s fs = some t ∧
      Stuck net answer t) ∧
    (Stuck net answer s → ∀ c, s.left c = 0 ∧ (s.sockets.taken c).length = n) := by
  have hkeep := preserves_sockets (lively_step net answer)
  have hs := hkeep.run hr lively_start
  have ha : Accounts True n m s := (accounts_step True n m).run
    (meets_of_forall_mem (fun e he _ _ => hok e he) _) hr (accounts_start True n m)
  refine ⟨length_le_of_run hr, ?_, ?_⟩
  · have hdecreases : Decreases (step net answer) (fun _ e => e.fails = false)
        (fun u => (∃ T, Located net answer u.sockets T) ∧ Live u.sockets) System.calls := by
      rintro u e v ⟨⟨T, hl⟩, hlive⟩ - h
      exact calls_lt h hl hlive
    obtain ⟨fs, t, hm, hfs, hend⟩ :=
      hdecreases.exists_exhausted (fun _ _ _ _ h hu => hkeep h hu) hs
    exact ⟨fs, t, forall_mem_of_meets hm hfs, hfs, hend⟩
  · intro hstuck c
    obtain ⟨⟨T, hl⟩, hlive⟩ := hs
    have hleft := hstuck.finished hl hlive ha hm c
    refine ⟨hleft, ?_⟩
    have hclient := ha.client c
    have hidle : s.receiving c = false :=
      Bool.eq_false_of_not_eq_true fun hreceiving => hclient.left_ne hreceiving hleft
    obtain ⟨hwait, hsent⟩ := hclient.exact trivial
    have houtstanding := (hl.agrees c).outstanding
    rw [← hwait, hidle] at houtstanding
    rw [hidle, hleft] at hsent
    exact houtstanding.symm.trans hsent

/-- The same request, and the reply. -/
def oneReply : List (Event Unit Unit) :=
  [.send () [7] false, .carry (.uplink ())] ++ List.replicate 18 (.carry .relay) ++
    [.carry (.deal ()), .take () false, .answer () false, .rest (), .carry (.downlink ())] ++
      List.replicate 18 (.carry .relay) ++ [.carry .route, .receive () false]

theorem all_replied_oneReply : ∃ s,
    run (step oneRouting fun _ request => request) (.start 1 1) oneReply = some s ∧
      s.left () = 0 ∧ (s.sockets.taken ()).length = 1 := by
  obtain ⟨s, hr⟩ : ∃ s,
      run (step oneRouting fun _ request => request) (.start 1 1) oneReply = some s := ⟨_, rfl⟩
  have hstuck : Stuck oneRouting (fun _ request => request) s := by
    obtain rfl := Option.some.inj hr
    intro e hok
    cases e with
    | send c request fails | receive c fails | take w fails | answer w fails =>
        obtain rfl : fails = false := hok
        rfl
    | rest w => rfl
    | carry e => cases e <;> rfl
  have hok : ∀ e ∈ oneReply, e.fails = false := by
    simp [oneReply, Event.fails]
  exact ⟨s, hr, (all_replied (by simp) hr hok).2.2 hstuck ()⟩

end

end Brokered

end ZeromqAgent
