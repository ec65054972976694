import ZeromqAgent.Session
import ZeromqAgent.Theory.Handles

/-!
# The life of a socket handle

The trace of the calls of a session shows which handles were opened, used
and closed. The member `m_socket` holds one handle, which every `connect`
or `bind` overwrites, and the destructor closes that one only.
-/

namespace ZeromqAgent

open Transition Handles

variable (strerror : Errno → String)

def Operate.attempt : Operate → Option Bool
  | .connect _ r => some r.socket.isNone
  | .bind _ r => some r.socket.isNone
  | _ => none

def Impl.trace (c : Impl) : List (Event Handle) := c.context.calls.map Call.event

/-! ## What the operations do to the handles -/

/-- The call only used the handle that the object holds. -/
structure Impl.Uses (c c' : Impl) : Prop where
  socket : c'.socket = c.socket
  created : c'.context.created = c.context.created
  trace : ∃ us, c'.trace = c.trace ++ us ∧ ∀ u ∈ us, u = .use c.socket

theorem Impl.Uses.refl (c : Impl) : c.Uses c := ⟨rfl, rfl, [], by simp⟩

theorem Impl.Uses.trans {a b c : Impl} (hab : a.Uses b) (hbc : b.Uses c) : a.Uses c := by
  obtain ⟨us, hus, huse⟩ := hab.trace
  obtain ⟨vs, hvs, hvse⟩ := hbc.trace
  refine ⟨hbc.socket.trans hab.socket, hbc.created.trans hab.created, us ++ vs, ?_, ?_⟩
  · rw [hvs, hus, List.append_assoc]
  · intro u hu
    rcases List.mem_append.mp hu with h | h
    · exact huse u h
    · exact hab.socket ▸ hvse u h

/-- What is left when the handles and the trace are put aside does not matter. -/
theorem Impl.Uses.of_eq {a b c : Impl} (h : a.Uses b) (hs : c.socket = b.socket)
    (hc : c.context.created = b.context.created) (ht : c.context.calls = b.context.calls) :
    a.Uses c := by
  refine ⟨hs.trans h.socket, hc.trans h.created, ?_⟩
  simpa [Impl.trace, ht] using h.trace

theorem Impl.uses_call (c : Impl) (call : Call) (h : call.event = .use c.socket) :
    c.Uses { c with context := c.context.call call } :=
  ⟨rfl, rfl, [.use c.socket], by simp [Impl.trace, Context.call, h], by simp⟩

theorem uses_sendWorker (c : Impl) (message : SendMessage) (flags : Flags) (r : SendCalls) :
    c.Uses (ClientImpl.sendWorker strerror c message flags r).2 := by
  obtain ⟨_ | e, send⟩ := r
  · cases send <;> exact (c.uses_call (.msgSend c.socket flags) rfl).of_eq rfl rfl rfl
  · exact (Impl.Uses.refl c).of_eq rfl rfl rfl

theorem uses_publishWorker (c : Impl) (heap : Heap) (message : SendMessage) (flags : Flags)
    (r : Option Errno) : c.Uses (ServerImpl.publishWorker strerror c heap message flags r).2 := by
  cases r <;> exact (c.uses_call (.send c.socket .none) rfl).of_eq rfl rfl rfl

theorem uses_receive (role : Role) (c : Impl) (heap : Heap) (r : ReceiveCalls) :
    c.Uses (role.receive strerror c heap r).2.1 := by
  have hrecv := c.uses_call (.msgRecv c.socket .none) rfl
  have h := received strerror role c heap r
  generalize role.receive strerror c heap r = p at h
  cases h with
  | publisher r hrole hpublish => exact .refl c
  | init e recv htype => exact (Impl.Uses.refl c).of_eq rfl rfl rfl
  | thrown data bytes htype hlong => cases role <;> exact hrecv.of_eq rfl rfl rfl
  | _ => exact hrecv.of_eq rfl rfl rfl

theorem uses_receiveHandler (c : Impl) (r : PollCalls) :
    c.Uses (c.receiveHandler strerror r).2 := by
  have hpoll := c.uses_call (.poll c.socket) rfl
  obtain ⟨_ | _, recv⟩ := r
  · exact hpoll
  · have hrecv := hpoll.trans (Impl.uses_call _ (.msgRecv c.socket .dontwait) rfl)
    cases recv with
    | ok message => exact hrecv
    | error e =>
        by_cases he : e = .eagain
        · simpa [Impl.receiveHandler, he] using hrecv
        · exact hrecv.of_eq (by simp [Impl.receiveHandler, he, Impl.fail])
            (by simp [Impl.receiveHandler, he, Impl.fail])
            (by simp [Impl.receiveHandler, he, Impl.fail])

theorem uses_run (role : Role) (c : Impl) (heap : Heap) (send : SendCalls) (receive : PollCalls)
    (p : Handler) : c.Uses (p.run strerror role c heap send receive) := by
  cases p with
  | receive => exact uses_receiveHandler strerror c receive
  | send message =>
      cases role with
      | client => exact uses_sendWorker strerror c message _ send
      | server => exact uses_publishWorker strerror c heap message _ send.send

theorem createSocket_opened {c c₁ : Impl} (h : c.createSocket none = (none, c₁)) :
    c₁.socket = c.context.created + 1 ∧ c₁.context.created = c.context.created + 1 ∧
      c₁.trace = c.trace ++ [.acquire (c.context.created + 1)] := by
  obtain ⟨-, rfl⟩ := Prod.mk.inj h
  refine ⟨rfl, rfl, ?_⟩
  simp [Impl.trace, Call.event]

/-- A `connect` or `bind` whose `zmq_socket` fails or not. -/
inductive Impl.Attached (c c' : Impl) : Bool → Prop
  | failed (hs : c'.socket = 0) (hc : c'.context.created = c.context.created)
      (ht : c'.trace = c.trace) : Attached c c' false
  | opened (c₁ : Impl) (hs : c.createSocket none = (none, c₁)) (hu : c₁.Uses c') :
      Attached c c' true

theorem used_of_connect {c : Impl} {ctx : Context} {url : String} {r x : Option Errno}
    (h : c.context.connect c.socket url r = (x, ctx)) : c.Uses { c with context := ctx } := by
  have hcall := c.uses_call (.connect c.socket) rfl
  cases r <;> exact (Prod.mk.inj h).2 ▸ hcall.of_eq rfl rfl rfl

theorem used_of_bind {c : Impl} {ctx : Context} {url : String} {r x : Option Errno}
    (h : c.context.bind c.socket url r = (x, ctx)) : c.Uses { c with context := ctx } := by
  have hcall := c.uses_call (.bind c.socket) rfl
  unfold Context.bind at h
  dsimp only at h
  split at h <;> exact (Prod.mk.inj h).2 ▸ hcall.of_eq rfl rfl rfl

theorem attached_connect (c : Impl) (url : String) (r : ConnectCalls) :
    c.Attached (ClientImpl.connect strerror c url r).2 r.socket.isNone := by
  obtain ⟨_ | e, connect, setsockopt⟩ := r
  · obtain ⟨c₁, hs⟩ : ∃ c₁, c.createSocket none = (none, c₁) := ⟨_, rfl⟩
    refine .opened c₁ hs ?_
    simp only [ClientImpl.connect, hs]
    split
    · next e ctx hc => exact (used_of_connect hc).of_eq rfl rfl rfl
    · next ctx hc =>
        have hoption := (used_of_connect hc).trans
          (Impl.uses_call _ (.setsockopt c₁.socket) rfl)
        split
        · cases setsockopt <;> exact hoption.of_eq rfl rfl rfl
        · exact used_of_connect hc
  · exact .failed rfl rfl rfl

theorem attached_bind (c : Impl) (url : String) (r : BindCalls) :
    c.Attached (ServerImpl.bind strerror c url r).2 r.socket.isNone := by
  obtain ⟨_ | e, bind⟩ := r
  · obtain ⟨c₁, hs⟩ : ∃ c₁, c.createSocket none = (none, c₁) := ⟨_, rfl⟩
    refine .opened c₁ hs ?_
    simp only [ServerImpl.bind, hs]
    split
    · next e ctx hb => exact (used_of_bind hb).of_eq rfl rfl rfl
    · next ctx hb => exact used_of_bind hb
  · exact .failed rfl rfl rfl

theorem socket_of_connect_ok {c : Impl} {url : String} {r : ConnectCalls}
    (h : (ClientImpl.connect strerror c url r).1 = .ok) : r.socket.isNone = true := by
  obtain ⟨_ | e, connect, setsockopt⟩ := r
  · rfl
  · simp [ClientImpl.connect, Impl.createSocket, Context.socket] at h

theorem socket_of_bind_ok {c : Impl} {url : String} {r : BindCalls}
    (h : (ServerImpl.bind strerror c url r).1 = .ok) : r.socket.isNone = true := by
  obtain ⟨_ | e, bind⟩ := r
  · rfl
  · simp [ServerImpl.bind, Impl.createSocket, Context.socket] at h

/-! ## What a step does -/

inductive SessionStep (s : Session) : Option Bool → Session → Prop
  | attach (c : Impl) (ready opened : Bool) (ha : s.impl.Attached c opened)
      (hready : ready = true → s.ready = true ∨ opened = true) :
      SessionStep s (some opened) { s with impl := c, ready := ready }
  | use (c : Impl) (heap : Heap) (posted : List Handler) (returned : Option Bytes)
      (hu : s.impl.Uses c) (hready : s.ready = true ∨ s.posted ≠ []) :
      SessionStep s none
        { s with impl := c, heap := heap, posted := posted, returned := returned }
  | memory (heap : Heap) : SessionStep s none { s with heap := heap }
  | destroy :
      SessionStep s none { s with impl := s.impl.destroy, returned := none, finished := true }

theorem step_session {role : Role} {s t : Session} {o : Operate}
    (h : s.step strerror role o = some t) :
    s.finished = false ∧ SessionStep s o.attempt t := by
  obtain ⟨hlive, hstep⟩ := session_step_cases strerror h
  refine ⟨hlive, ?_⟩
  cases hstep with
  | connect url r hrole =>
      apply SessionStep.attach _ _ _ (attached_connect strerror s.impl url r)
      intro hready
      rcases Bool.or_eq_true_iff.mp hready with hs | hok
      · exact Or.inl hs
      · exact Or.inr (socket_of_connect_ok strerror (of_decide_eq_true hok))
  | bind url r hrole =>
      apply SessionStep.attach _ _ _ (attached_bind strerror s.impl url r)
      intro hready
      rcases Bool.or_eq_true_iff.mp hready with hs | hok
      · exact Or.inl hs
      · exact Or.inr (socket_of_bind_ok strerror (of_decide_eq_true hok))
  | send message r hrole hready =>
      exact .use _ _ _ _ (uses_sendWorker strerror s.impl message _ r) (Or.inl hready)
  | publish message r hrole hready =>
      exact .use _ _ _ _ (uses_publishWorker strerror s.impl s.heap message _ r) (Or.inl hready)
  | receive r hready hplaced =>
      exact .use _ _ _ _ (uses_receive strerror role s.impl s.heap r) (Or.inl hready)
  | post _ p ho hready =>
      have huse : SessionStep s none { s with posted := s.posted ++ [p] } :=
        .use _ _ _ _ (.refl _) (Or.inl hready)
      rcases ho with rfl | ⟨message, rfl⟩
      · exact huse
      · exact huse
  | work send receive p rest hposted =>
      have hne : s.posted ≠ [] := by simp [hposted]
      exact .use _ _ _ _ (uses_run strerror role s.impl s.heap send receive p) (Or.inr hne)
  | memory a block => exact .memory _
  | destroy => exact .destroy

/-! ## The invariant of a session -/

/-- A session whose attempts to open a socket had the given outcomes. As
nothing is closed before the end, all returned handles are open. The uses
are in order while only the last attempt succeeded. -/
structure Session.Inv (attempts : List Bool) (s : Session) : Prop where
  created : s.impl.context.created = attempts.count true
  socket : ∀ b, attempts.getLast? = some b →
    s.impl.socket = if b then s.impl.context.created else 0
  ready : s.ready = true ∨ s.posted ≠ [] → true ∈ attempts
  opened : ∀ o, audit s.impl.trace = some o → o = handlesTo s.impl.context.created
  ordered : true ∉ attempts.dropLast → (audit s.impl.trace).isSome = true

variable {attempts : List Bool} {s : Session} {c : Impl}

theorem exists_snoc_of_mem {b : Bool} (h : b ∈ attempts) : ∃ ys b', attempts = ys ++ [b'] := by
  rcases List.eq_nil_or_concat attempts with rfl | ⟨ys, b', hsnoc⟩
  · simp at h
  · exact ⟨ys, b', by rw [hsnoc, List.concat_eq_append]⟩

theorem inv_start (type : SocketType) (junkSocket : Handle) (junkAllocated : Bool) :
    (Session.start type junkSocket junkAllocated).Inv [] where
  created := rfl
  socket := by simp
  ready := by simp [Session.start]
  opened := by
    intro o ho
    exact (Option.some.inj ho).symm
  ordered := fun _ => rfl

theorem inv_attach {opened ready : Bool} (hi : s.Inv attempts) (ha : s.impl.Attached c opened)
    (hready : ready = true → s.ready = true ∨ opened = true) :
    Session.Inv (attempts ++ [opened]) { s with impl := c, ready := ready } := by
  have hmem : ready = true ∨ s.posted ≠ [] → true ∈ attempts ++ [opened] := by
    rintro (h | h)
    · rcases hready h with h | rfl
      · exact List.mem_append_left _ (hi.ready (Or.inl h))
      · simp
    · exact List.mem_append_left _ (hi.ready (Or.inr h))
  have hbefore : true ∉ attempts → (audit s.impl.trace).isSome = true := fun h =>
    hi.ordered fun hd => h (List.dropLast_subset _ hd)
  cases ha with
  | failed hs hc ht =>
      refine ⟨by simpa [hc] using hi.created, by simpa using hs, hmem, ?_, ?_⟩
      · simpa [ht, hc] using hi.opened
      · simpa [ht] using hbefore
  | opened c₁ hs hu =>
      obtain ⟨hsocket₁, hcreated₁, htrace⟩ := createSocket_opened hs
      obtain ⟨us, hus, huse⟩ := hu.trace
      rw [hsocket₁] at huse
      have hcreated : c.context.created = s.impl.context.created + 1 := hu.created.trans hcreated₁
      have hsocket : c.socket = s.impl.context.created + 1 := hu.socket.trans hsocket₁
      refine ⟨by simp [hcreated, hi.created], by simp [hcreated, hsocket], hmem, ?_, ?_⟩
      · intro o ho
        have hacquired := (audit_of_append_uses (hus ▸ ho) fun u hu => ⟨_, huse u hu⟩).1
        rw [htrace, audit_snoc, Option.bind_eq_some_iff] at hacquired
        obtain ⟨before, hb, hcheck⟩ := hacquired
        rw [hcreated, handlesTo_succ, ← hi.opened before hb]
        exact (Option.some.inj hcheck).symm
      · intro hnot
        obtain ⟨o, ho⟩ := Option.isSome_iff_exists.mp (hbefore (by simpa using hnot))
        have hacquired : audit c₁.trace = some ((s.impl.context.created + 1) :: o) := by
          rw [htrace, audit_snoc, ho]
          rfl
        have hall := audit_append_uses hacquired
          fun u hu => ⟨_, List.mem_cons_self .., huse u hu⟩
        rw [← hus] at hall
        exact Option.isSome_iff_exists.mpr ⟨_, hall⟩

theorem inv_use {heap : Heap} {posted : List Handler} {returned : Option Bytes}
    (hi : s.Inv attempts) (hu : s.impl.Uses c) (hready : s.ready = true ∨ s.posted ≠ []) :
    Session.Inv attempts
      { s with impl := c, heap := heap, posted := posted, returned := returned } := by
  have hmem := hi.ready hready
  obtain ⟨us, hus, huse⟩ := hu.trace
  refine ⟨by simpa [hu.created] using hi.created, ?_, fun _ => hmem, ?_, ?_⟩
  · intro b hb
    simpa [hu.created, hu.socket] using hi.socket b hb
  · intro o ho
    rw [hu.created]
    exact hi.opened o (audit_of_append_uses (hus ▸ ho) fun u hu => ⟨_, huse u hu⟩).1
  · intro hnot
    obtain ⟨o, ho⟩ := Option.isSome_iff_exists.mp (hi.ordered hnot)
    -- the only attempt that can have succeeded is the last
    obtain ⟨ys, b, rfl⟩ := exists_snoc_of_mem hmem
    have hlast : b = true := by
      rw [List.dropLast_concat] at hnot
      rcases List.mem_append.mp hmem with h | h
      · exact (hnot h).elim
      · exact (List.mem_singleton.mp h).symm
    have hsocket : s.impl.socket = s.impl.context.created := by
      simpa [hlast] using hi.socket b (by simp)
    have hopen : s.impl.socket ∈ o := by
      have hcount : s.impl.context.created = ys.count true + 1 := by
        simpa [hlast] using hi.created
      rw [hi.opened o ho, hsocket, hcount, handlesTo_succ]
      exact List.mem_cons_self ..
    have hall := audit_append_uses ho fun u hu => ⟨_, hopen, huse u hu⟩
    rw [← hus] at hall
    exact Option.isSome_iff_exists.mpr ⟨_, hall⟩

theorem inv_run {role : Role} {type : SocketType} {junkSocket : Handle} {junkAllocated : Bool}
    {os : List Operate} (hr : run (Session.step strerror role)
      (.start type junkSocket junkAllocated) os = some s) :
    s.finished = false → s.Inv (os.filterMap Operate.attempt) := by
  refine run_history (P := fun os s => s.finished = false →
    s.Inv (os.filterMap Operate.attempt)) hr (fun _ => inv_start type junkSocket junkAllocated) ?_
  intro os o t u hi h hlive
  obtain ⟨ht, hstep⟩ := step_session strerror h
  rw [List.filterMap_append]
  revert hstep
  cases ho : o.attempt with
  | some opened =>
      intro hstep
      cases hstep with
      | attach c ready _ ha hready => simpa [ho] using inv_attach (hi ht) ha hready
  | none =>
      intro hstep
      cases hstep with
      | use c heap posted returned hu hready => simpa [ho] using inv_use (hi ht) hu hready
      | memory heap =>
          have hi := hi ht
          simpa [ho] using ⟨hi.created, hi.socket, hi.ready, hi.opened, hi.ordered⟩
      | destroy => simp at hlive

/-! ## When the handles are in order -/

/-- The only handle returned is the one the object holds, exactly when the
last attempt to open a socket was the first to succeed. -/
theorem Session.Inv.audit_iff (hi : s.Inv attempts) :
    audit s.impl.trace = some [s.impl.socket] ↔
      ∃ before, attempts = before ++ [true] ∧ true ∉ before := by
  constructor
  · intro h
    have hall := hi.opened _ h
    have hone : s.impl.context.created = 1 := by
      simpa using (congrArg List.length hall).symm
    have hcount : attempts.count true = 1 := hi.created.symm.trans hone
    have hmem : true ∈ attempts := List.count_pos_iff.mp (by omega)
    obtain ⟨before, b, rfl⟩ := exists_snoc_of_mem hmem
    have hsocket := hi.socket b (by simp)
    have hb : b = true := by
      cases b with
      | true => rfl
      | false =>
          rw [hone] at hall
          simp [hsocket, handlesTo] at hall
    subst hb
    refine ⟨before, rfl, ?_⟩
    intro hbefore
    have hpos : 0 < before.count true := List.count_pos_iff.mpr hbefore
    simp only [List.count_append, List.count_singleton_self] at hcount
    omega
  · rintro ⟨before, rfl, hnot⟩
    have hone : s.impl.context.created = 1 := by
      simpa [List.count_eq_zero_of_not_mem hnot] using hi.created
    have hsocket : s.impl.socket = 1 := by simpa [hone] using hi.socket true (by simp)
    obtain ⟨o, ho⟩ := Option.isSome_iff_exists.mp (hi.ordered (by simpa using hnot))
    rw [ho, hi.opened o ho, hone, hsocket]
    rfl

/-- In a session of any operations up to the destructor, every handle used
or closed was open and every socket was closed once before the context was
destroyed, exactly when the last `connect` or `bind` is the first whose
`zmq_socket` succeeded. -/
theorem session_in_order {role : Role} {type : SocketType} {junkSocket : Handle}
    {junkAllocated : Bool} {os : List Operate} {t : Session}
    (hr : run (Session.step strerror role) (.start type junkSocket junkAllocated)
      (os ++ [.destroy]) = some t) :
    (audit t.impl.trace).isSome ↔
      ∃ before, os.filterMap Operate.attempt = before ++ [true] ∧ true ∉ before := by
  rw [run_append, Option.bind_eq_some_iff] at hr
  obtain ⟨s, hs, hr⟩ := hr
  obtain ⟨u, hstep, heq⟩ := run_cons_eq_some.mp hr
  obtain rfl := Option.some.inj heq
  obtain ⟨hlive, -⟩ := step_session strerror hstep
  have hu : { s with impl := s.impl.destroy, returned := none, finished := true } = u := by
    cases role <;> simpa [Session.step, hlive] using hstep
  have hi := inv_run strerror hs hlive
  rw [← hi.audit_iff, ← audit_append_release_finish, ← hu]
  simp [Impl.trace, Impl.destroy, Context.close, Context.destroy, Context.call, Call.event]

theorem session_in_order_send : ∃ t : Session,
    run (Session.step (fun _ => "") .client) (.start .request 9 false)
        ([.connect "url" ⟨none, none, none⟩, .send ⟨0, 7, true⟩ ⟨none, none⟩] ++ [.destroy]) =
      some t ∧ (audit t.impl.trace).isSome := by
  obtain ⟨t, ht⟩ : ∃ t : Session,
      run (Session.step (fun _ => "") .client) (.start .request 9 false)
          ([.connect "url" ⟨none, none, none⟩, .send ⟨0, 7, true⟩ ⟨none, none⟩] ++ [.destroy]) =
        some t := ⟨_, rfl⟩
  exact ⟨t, ht, (session_in_order (fun _ => "") ht).mpr ⟨[], rfl, by simp⟩⟩

/-- A client connects again after `zmq_connect` failed: the first socket is
still open when the context is destroyed. -/
theorem session_in_order_fails : ¬ ∀ (strerror : Errno → String) (role : Role)
    (type : SocketType) (junkSocket : Handle) (junkAllocated : Bool) (os : List Operate)
    (t : Session), run (Session.step strerror role) (.start type junkSocket junkAllocated)
      (os ++ [.destroy]) = some t → (audit t.impl.trace).isSome := by
  intro h
  have hretry := h (fun _ => "") .client .request 0 false
    [.connect "url" ⟨none, some .eintr, none⟩, .connect "url" ⟨none, none, none⟩] _ rfl
  revert hretry
  decide

end ZeromqAgent
