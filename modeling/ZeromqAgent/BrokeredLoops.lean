import ZeromqAgent.Brokered
import ZeromqAgent.CallLoops

/-!
# The loops around the broker

The clients and workers around the broker have sockets and call by call
iterations, and no objects or memory. Here they are the loops of
`req_rep_client` and `req_rep_worker` again: such a loop, if its calls turn
out as they did in the network, has sent what the client has sent, and has
received what the worker was handed.
-/

namespace ZeromqAgent

namespace Brokered

open Parties RequestReply Transition Turns

/-! ## The parties of the network -/

def Phase.stage : Phase → Stage
  | .receiving => .receiving
  | .sending => .replying
  | .sleeping => .resting

variable {C W : Type}

def System.client (s : System C W) (c : C) : Requester Bytes :=
  ⟨s.left c, s.receiving c, s.sockets.waiting c, s.sockets.sent c⟩

variable [DecidableEq W]

/-- The requests handed to a worker, in the order of its receives. -/
def bodies (u : RequestReply.System C W) (w : W) : List Bytes :=
  (u.handed.filter fun h => h.worker = w).map fun h => h.body

theorem length_bodies (u : RequestReply.System C W) (w : W) :
    (bodies u w).length = handedBy u w := by
  simp [bodies, handedBy, List.countP_eq_length_filter]

def System.worker (s : System C W) (w : W) : Replier where
  left := s.workerLeft w
  stage := (s.phase w).stage
  unanswered := (s.sockets.serving w).isSome
  received := handedBy s.sockets w

def serves (w : W) : Event C W → List Serve
  | .take v fails => if v = w then [.receive (!fails)] else []
  | .answer v fails => if v = w then [.reply fails] else []
  | .rest v => if v = w then [.rest] else []
  | .send _ _ _ | .receive _ _ | .carry _ => []

variable [DecidableEq C]

def asks (c : C) : Event C W → List (Ask Bytes)
  | .send d request fails => if d = c then [.send request fails] else []
  | .receive d fails => if d = c then [.receive fails] else []
  | .take _ _ | .answer _ _ | .rest _ | .carry _ => []

omit [DecidableEq W] in
theorem eq_send_of_mem_asks {c : C} {e : Event C W} {request : Bytes} {fails : Bool}
    (h : .send request fails ∈ asks c e) : e = .send c request fails := by
  cases e with
  | send d request' fails' =>
      by_cases hd : d = c
      · subst hd
        simp only [asks, if_true, List.mem_singleton, Ask.send.injEq] at h
        rw [h.1, h.2]
      · simp [asks, hd] at h
  | receive d fails' => by_cases hd : d = c <;> simp [asks, hd] at h
  | take w fails' | answer w fails' | rest w | carry e => simp [asks] at h

variable [Fintype W] {net : Routing C} {answer : W → Bytes → Bytes} {s t : System C W}

theorem client_step (c : C) {e : Event C W} (h : step net answer s e = some t) :
    run Requester.step (s.client c) (asks c e) = some (t.client c) := by
  cases step_cases h with
  | sent d request u hleft hphase hu =>
      cases fires hu with
      | send d request hidle =>
          by_cases hd : d = c
          · subst hd
            simp [asks, run, Requester.step, System.client, hleft, hphase, hidle]
          · simp [asks, hd, run, System.client, Function.update_of_ne (Ne.symm hd)]
  | notSent d request fails hleft hphase hwhy =>
      by_cases hd : d = c
      · subst hd
        simp [asks, run, Requester.step, System.client, hleft, hphase, hwhy]
      · simp [asks, hd, run, System.client, Function.update_of_ne (Ne.symm hd)]
  | received d u hleft hphase hu =>
      cases fires hu with
      | receive d m rest body hwait hq hm =>
          by_cases hd : d = c
          · subst hd
            simp [asks, run, Requester.step, System.client, System.endIteration, hleft, hphase]
          · simp [asks, hd, run, System.client, System.endIteration,
              Function.update_of_ne (Ne.symm hd)]
  | notReceived d fails hleft hphase hwhy =>
      by_cases hd : d = c
      · subst hd
        have hkept : (s.sockets.waiting d && fails) = s.sockets.waiting d := by
          rcases hwhy with hidle | rfl
          · simp [hidle]
          · simp
        simp [asks, run, Requester.step, System.client, System.endIteration, hleft, hphase, hkept]
      · simp [asks, hd, run, System.client, System.endIteration,
          Function.update_of_ne (Ne.symm hd)]
  | took w u hleft hphase hu => cases fires hu; rfl
  | notTaken w fails hleft hphase hwhy => rfl
  | answered w u hleft hphase hu => cases fires hu; rfl
  | notAnswered w hleft hphase => rfl
  | rested w hleft hphase => rfl
  | carried e u hlets hu => cases e <;> cases fires hu <;> rfl

/-- A worker about to reply has a request in hand. -/
theorem worker_step (w : W) {ok : Prop} {n m : ℕ} (ha : Accounts ok n m s) {e : Event C W}
    (h : step net answer s e = some t) :
    run Replier.step (s.worker w) (serves w e) = some (t.worker w) := by
  cases step_cases h with
  | sent d request u hleft hphase hu => cases fires hu; rfl
  | notSent d request fails hleft hphase hwhy => rfl
  | received d u hleft hphase hu => cases fires hu; rfl
  | notReceived d fails hleft hphase hwhy => rfl
  | took v u hleft hphase hu =>
      cases fires hu with
      | take v m rest envelope body parts hidle hq hm =>
          by_cases hv : v = w
          · subst hv
            simp [serves, run, Replier.step, System.worker, System.enter, Phase.stage, handedBy,
              hleft, hphase, hidle]
          · simp [serves, hv, run, System.worker, System.enter, handedBy,
              Function.update_of_ne (Ne.symm hv)]
  | notTaken v fails hleft hphase hwhy =>
      by_cases hv : v = w
      · subst hv
        simp [serves, run, Replier.step, System.worker, System.endWorkerIteration, Phase.stage,
          hleft, hphase, hwhy]
      · simp [serves, hv, run, System.worker, System.endWorkerIteration,
          Function.update_of_ne (Ne.symm hv)]
  | answered v u hleft hphase hu =>
      cases fires hu with
      | answer v envelope body hq =>
          by_cases hv : v = w
          · subst hv
            simp [serves, run, Replier.step, System.worker, System.enter, Phase.stage, handedBy,
              hleft, hphase]
          · simp [serves, hv, run, System.worker, System.enter, handedBy,
              Function.update_of_ne (Ne.symm hv)]
  | notAnswered v hleft hphase =>
      by_cases hv : v = w
      · subst hv
        have hserving := (ha.worker v).serves hphase
        simp [serves, run, Replier.step, System.worker, System.enter, Phase.stage, hleft, hphase,
          hserving]
      · simp [serves, hv, run, System.worker, System.enter, Function.update_of_ne (Ne.symm hv)]
  | rested v hleft hphase =>
      by_cases hv : v = w
      · subst hv
        simp [serves, run, Replier.step, System.worker, System.endWorkerIteration, Phase.stage,
          hleft, hphase]
      · simp [serves, hv, run, System.worker, System.endWorkerIteration,
          Function.update_of_ne (Ne.symm hv)]
  | carried e u hlets hu => cases e <;> cases fires hu <;> rfl

/-! ## The loop of a client -/

/-- The calls of the loop turned out as the client's did. -/
def FollowsRequester (es : List (Event C W)) (c : C) (its : List RequestLoop.Iteration) : Prop :=
  its.map RequestLoop.Iteration.calls = (asked (es.flatMap (asks c))).1

/-- Of requests of which the first have been passed on, and of those the
first answered, the answered ones are known by their number. -/
theorem exists_answered {V : Type} {answer : V → Bytes → Bytes} {sent taken : List Bytes}
    {handed : List (V × Bytes)} (hsent : handed.map Prod.snd <+: sent)
    (htaken : taken <+: handed.map fun h => answer h.1 h.2)
    {requests : List Bytes} (hrequests : requests <+: sent)
    (hlength : taken.length = requests.length) :
    ∃ served : List (V × Bytes), served.map Prod.snd = requests ∧
      taken = served.map fun h => answer h.1 h.2 := by
  refine ⟨handed.take taken.length, ?_, ?_⟩
  · have hle : taken.length ≤ handed.length := by simpa using htaken.length_le
    have hserved : (handed.take taken.length).map Prod.snd <+: sent := by
      rw [List.map_take]
      exact (List.take_prefix _ _).trans hsent
    have hsame : ((handed.take taken.length).map Prod.snd).length = requests.length := by
      rw [List.length_map, List.length_take_of_le hle, hlength]
    exact (List.prefix_of_prefix_length_le hserved hrequests hsame.le).eq_of_length hsame
  · rw [List.map_take]
    exact List.prefix_iff_eq_take.mp htaken

/-- In any run of the network, with any calls failing and workers leaving,
let a client be between two iterations. If its requests were messages of the
program, the loop of `req_rep_client` has a run whose calls turned out as the
client's did. In each run like that the requests it has reported as accepted
are those the client has sent, its socket waits for a reply when the
client's does, and the replies the client has taken are what workers answer
to the requests that it has reported as replied to, in their order. -/
theorem requester_loop {n m : ℕ} {es : List (Event C W)}
    (hr : run (step net answer) (.start n m) es = some s) {c : C} (hphase : s.receiving c = false)
    (hdrawn : ∀ request fails, .send c request fails ∈ es → RequestLoop.Drawn request)
    (strerror : Errno → String) (impl : Impl) :
    (∃ its t, run (RequestLoop.iterate strerror) (.start impl fun _ => none) its = some t ∧
      FollowsRequester es c its) ∧
    ∀ heap its t, run (RequestLoop.iterate strerror) (.start impl heap) its = some t →
      FollowsRequester es c its →
        s.left c + its.length = n ∧ s.sockets.waiting c = t.client.outstanding.isSome ∧
        s.sockets.sent c = (accepted t.reports).map RequestLoop.Request.message ∧
        accepted t.reports = replied t.reports ++ t.client.outstanding.toList ∧
        ∃ served : List (W × Bytes),
          served.map Prod.snd = (replied t.reports).map RequestLoop.Request.message ∧
          s.sockets.taken c = served.map fun h => answer h.1 h.2 := by
  constructor
  · apply RequestLoop.exists_run
    refine (forall_asked ?_).1
    intro request fails hmem
    obtain ⟨e, he, hask⟩ := List.mem_flatMap.mp hmem
    obtain rfl := eq_send_of_mem_asks hask
    exact hdrawn request fails he
  · intro heap its t ht hcalls
    have hview : run Requester.step (.start n) (es.flatMap (asks c)) = some (s.client c) :=
      run_flatMap (I := fun _ => True) (fun _ _ _ _ _ => trivial)
        (fun _ _ _ _ h => client_step c h) trivial hr
    obtain ⟨hleft, hwaiting, hsent, hbalance⟩ :=
      RequestLoop.reports_of_calls id ht hview hphase hcalls
    refine ⟨hleft, hwaiting, hsent, hbalance, ?_⟩
    obtain ⟨⟨T, hl⟩, -⟩ := (preserves_sockets (lively_step net answer)).run hr lively_start
    have hagrees := hl.agrees c
    have hsent' : s.sockets.sent c = (accepted t.reports).map RequestLoop.Request.message := hsent
    have hwaiting' : s.sockets.waiting c = t.client.outstanding.isSome := hwaiting
    refine exists_answered hagrees.handed_sent hagrees.taken_replies ?_ ?_
    · rw [hsent', hbalance, List.map_append]
      exact List.prefix_append _ _
    · have hlength := hagrees.outstanding
      rw [hsent', hwaiting', hbalance, List.length_map, List.length_append] at hlength
      cases ho : t.client.outstanding <;> simpa [ho] using hlength.symm

def cameraBytes : Bytes := RequestLoop.messages[Fin.last 2].toUTF8.data.toList

/-- The run of `oneReply` with a message of the program. -/
def oneCamera : List (Event Unit Unit) := .send () cameraBytes false :: oneReply.tail

theorem requester_loop_oneCamera : ∃ (s : System Unit Unit) (t : RequestLoop.Loop),
    run (step oneRouting fun _ request => request) (.start 1 1) oneCamera = some s ∧
    run (RequestLoop.iterate fun _ => "") (.start (.start .request 0 false) fun _ => none)
      [RequestLoop.playing (Fin.last 2) false false] = some t ∧
    s.sockets.taken () = [cameraBytes] ∧
    (replied t.reports).map RequestLoop.Request.message = [cameraBytes] := by
  obtain ⟨s, hr, htaken, hphase⟩ : ∃ s : System Unit Unit,
      run (step oneRouting fun _ request => request) (.start 1 1) oneCamera = some s ∧
        s.sockets.taken () = [cameraBytes] ∧ s.receiving () = false := ⟨_, rfl, rfl, rfl⟩
  obtain ⟨t, ht⟩ : ∃ t, run (RequestLoop.iterate fun _ => "")
      (.start (.start .request 0 false) fun _ => none)
      [RequestLoop.playing (Fin.last 2) false false] = some t := ⟨_, rfl⟩
  have hdrawn : ∀ request fails, .send () request fails ∈ oneCamera →
      RequestLoop.Drawn request := by
    intro request fails hmem
    have hcamera : request = cameraBytes ∧ fails = false := by
      simpa [oneCamera, oneReply] using hmem
    exact ⟨Fin.last 2, hcamera.1.symm⟩
  have hloop := (requester_loop hr hphase hdrawn _ _).2 _ _ t ht rfl
  obtain ⟨served, hserved, hanswers⟩ := hloop.2.2.2.2
  refine ⟨s, t, hr, ht, htaken, ?_⟩
  rw [← hserved, ← htaken, hanswers]

/-! ## The loop of a worker -/

def FollowsWorker (es : List (Event C W)) (w : W) (as : List ReplyLoop.Action) : Prop :=
  ReplyLoop.loopCalls .client as = (servings (es.flatMap (serves w))).1

omit [DecidableEq C] [Fintype W] in
theorem exists_followsWorker (es : List (Event C W)) {w : W} (strerror : Errno → String)
    {impl : Impl} (htype : impl.type = .reply) {requests : List Bytes}
    (hprintable : ∀ request ∈ requests, Printable request)
    (hle : requests.length ≤ (servings (es.flatMap (serves w))).1.length) :
    ∃ as t, run (ReplyLoop.step strerror .client) (.start impl fun _ => none) as = some t ∧
      FollowsWorker es w as ∧ requests <+: t.desk.arrived := by
  set calls := (servings (es.flatMap (serves w))).1 with hcalls
  -- to the iterations that receive nothing any request can come
  set arrivals := requests ++ List.replicate (calls.length - requests.length) []
  have hlength : arrivals.length = calls.length := by
    simp only [arrivals, List.length_append, List.length_replicate]
    omega
  have harrivals : ∀ request ∈ arrivals, Printable request := by
    refine List.forall_mem_append.mpr ⟨hprintable, ?_⟩
    intro request hrequest
    obtain rfl := List.eq_of_mem_replicate hrequest
    decide
  obtain ⟨as, t, ht, hloop, harrived⟩ :=
    ReplyLoop.exists_run strerror .client htype (arrivals.zip calls)
      (by rwa [List.map_fst_zip hlength.le])
  refine ⟨as, t, ht, ?_, ?_⟩
  · rw [FollowsWorker, hloop, List.map_snd_zip hlength.ge]
  · rw [harrived, List.map_fst_zip hlength.le]
    exact List.prefix_append _ _

omit [Fintype W] in
/-- The request a worker has in hand is the last that was handed to it. -/
theorem serving_step (w : W) : Preserves (RequestReply.step net answer) fun u =>
    ∀ r ∈ u.serving w, (bodies u w).getLast? = some r.2 := by
  intro u e v h hu
  cases fires h with
  | take w' m rest envelope body parts hidle hq hm =>
      by_cases hw : w = w'
      · subst hw
        simp [bodies]
      · have hw' : ¬ w' = w := Ne.symm hw
        simpa [bodies, Function.update_of_ne hw, hw'] using hu
  | answer w' envelope body hq =>
      by_cases hw : w = w'
      · subst hw
        simp
      · simpa [bodies, Function.update_of_ne hw] using hu
  | _ => exact hu

/-- In any run of the network, with any calls failing and workers leaving,
let a worker be between two iterations. The loop of `req_rep_worker` has a
run whose calls turned out as the worker's did and to which the requests came
that the worker was handed, exactly when the string of each of them can be
built. In each run like that it has received these requests, in their order,
has answered all of them but the last, and has left the last unanswered when
the worker has it in hand. -/
theorem worker_loop {n m : ℕ} {es : List (Event C W)}
    (hr : run (step net answer) (.start n m) es = some s) {w : W} (hphase : s.phase w = .receiving)
    (strerror : Errno → String) {impl : Impl} (htype : impl.type = .reply) :
    ((∃ as t, run (ReplyLoop.step strerror .client) (.start impl fun _ => none) as = some t ∧
      FollowsWorker es w as ∧ bodies s.sockets w <+: t.desk.arrived) ↔
        ∀ request ∈ bodies s.sockets w, Printable request) ∧
    ∀ heap as t, run (ReplyLoop.step strerror .client) (.start impl heap) as = some t →
      FollowsWorker es w as → bodies s.sockets w <+: t.desk.arrived →
        s.workerLeft w + (ReplyLoop.loopCalls .client as).length = m ∧
        t.desk.received = bodies s.sockets w ∧
        t.desk.unanswered = (s.sockets.serving w).map Prod.snd ∧
        t.desk.received = t.desk.answered ++ t.desk.unanswered.toList := by
  have hkeep : Preserves (step net answer) (Accounts False n m) := accounts_preserved n m
  have ha := hkeep.run hr (accounts_start False n m)
  have hview : run Replier.step (.start m) (es.flatMap (serves w)) = some (s.worker w) :=
    run_flatMap hkeep (fun _ _ _ hi h => worker_step w hi h) (accounts_start False n m) hr
  have hstage : (s.worker w).stage = .receiving := by simp [System.worker, hphase, Phase.stage]
  have hreceives : ∀ heap as t,
      run (ReplyLoop.step strerror .client) (.start impl heap) as = some t →
      FollowsWorker es w as → bodies s.sockets w <+: t.desk.arrived →
        t.desk.received = bodies s.sockets w := by
    intro heap as t ht hcalls harrived
    obtain ⟨-, hreceived, -, haccounts, -⟩ :=
      ReplyLoop.received_of_calls htype ht hview hstage hcalls
    have hlength : (bodies s.sockets w).length = t.desk.received.length := by
      rw [length_bodies]
      exact hreceived
    have hprefix : t.desk.received <+: t.desk.arrived := by
      rw [haccounts.arrived]
      exact List.prefix_append _ _
    exact ((List.prefix_of_prefix_length_le harrived hprefix hlength.le).eq_of_length
      hlength).symm
  refine ⟨⟨?_, ?_⟩, ?_⟩
  · rintro ⟨as, t, ht, hcalls, harrived⟩
    rw [← hreceives _ as t ht hcalls harrived]
    exact (ReplyLoop.received_of_calls htype ht hview hstage hcalls).2.2.2.2
  · intro hprintable
    obtain ⟨hleft, -⟩ := served_of_run hview hstage
    apply exists_followsWorker es strerror htype hprintable
    have hsum : s.workerLeft w + (servings (es.flatMap (serves w))).1.length = m := hleft
    have hhanded := (ha.worker w).handed_le
    rw [hphase, Phase.busy, ← length_bodies] at hhanded
    omega
  · intro heap as t ht hcalls harrived
    obtain ⟨hleft, -, hunanswered, haccounts, -⟩ :=
      ReplyLoop.received_of_calls htype ht hview hstage hcalls
    have hsame := hreceives heap as t ht hcalls harrived
    refine ⟨hleft, hsame, ?_, haccounts.received⟩
    have hserving := (preserves_sockets (serving_step w)).run hr (by
      simp [System.start, RequestReply.System.start])
    have hunanswered' : (s.sockets.serving w).isSome = t.desk.unanswered.isSome := hunanswered
    cases hu : s.sockets.serving w with
    | none =>
        rw [hu, Option.isSome_none] at hunanswered'
        simpa using hunanswered'.symm
    | some r =>
        rw [hu, Option.isSome_some] at hunanswered'
        obtain ⟨request, hrequest⟩ := Option.isSome_iff_exists.mp hunanswered'.symm
        have hlast := hserving r hu
        rw [← hsame, haccounts.received, hrequest] at hlast
        simpa [hrequest] using hlast

theorem worker_loop_oneCamera : ∃ (s : System Unit Unit) (t : ReplyLoop.Loop),
    run (step oneRouting fun _ request => request) (.start 1 1) oneCamera = some s ∧
    run (ReplyLoop.step (fun _ => "") .client) (.start (.start .reply 0 false) fun _ => none)
      [.arrive cameraBytes, .iterate (ReplyLoop.serving (true, false))] = some t ∧
    bodies s.sockets () = [cameraBytes] ∧ t.desk.answered = [cameraBytes] := by
  obtain ⟨s, hr, hbodies, hserving, hphase⟩ : ∃ s : System Unit Unit,
      run (step oneRouting fun _ request => request) (.start 1 1) oneCamera = some s ∧
        bodies s.sockets () = [cameraBytes] ∧ s.sockets.serving () = none ∧
        s.phase () = .receiving := ⟨_, rfl, rfl, rfl, rfl⟩
  obtain ⟨t, ht, harrived⟩ : ∃ t, run (ReplyLoop.step (fun _ => "") .client)
      (.start (.start .reply 0 false) fun _ => none)
      [.arrive cameraBytes, .iterate (ReplyLoop.serving (true, false))] = some t ∧
        t.desk.arrived = [cameraBytes] := ⟨_, rfl, rfl⟩
  have hprefix : bodies s.sockets () <+: t.desk.arrived := by rw [hbodies, harrived]
  obtain ⟨-, hreceived, hnone, hanswered⟩ :=
    (worker_loop hr hphase _ rfl).2 _ _ t ht rfl hprefix
  refine ⟨s, t, hr, ht, hbodies, ?_⟩
  rw [hreceived, hbodies, hnone, hserving] at hanswered
  simpa using hanswered.symm

end Brokered

end ZeromqAgent
