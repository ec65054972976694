import ZeromqAgent.CallLoops
import ZeromqAgent.Direct

/-!
# The loops in the network

The network of clients and a server knows requests by number and calls by
whether they fail. Here its parts are the loops of the program again, with
their objects and memory: if the calls of a loop turn out as they did in
the network, the loop's own account of its iterations is what the network
says of it.
-/

namespace ZeromqAgent

namespace Direct

open Parties Transition Turns

variable {C : Type}

/-! ## The parties of the network -/

def System.client (s : System C) (c : C) : Requester Unit :=
  ⟨s.left c, s.receiving c, s.outstanding c, List.replicate (s.accepted c) ()⟩

def System.server (s : System C) : Replier where
  left := s.serverLeft
  stage := if s.publishing then .replying else .receiving
  unanswered := s.unanswered.isSome
  received := s.published + s.unanswered.isSome.toNat

/-- The server does not rest between its iterations. -/
def serves : Event C → List Serve
  | .take client => [.receive client.isSome]
  | .publish fails => [.reply fails, .rest]
  | .send _ _ | .receive _ _ => []

variable [DecidableEq C]

def asks (c : C) : Event C → List (Ask Unit)
  | .send d fails => if d = c then [.send () fails] else []
  | .receive d fails => if d = c then [.receive fails] else []
  | .take _ | .publish _ => []

theorem asks_of_ne {c d : C} (hd : d ≠ c) (fails : Bool) :
    asks c (.send d fails) = [] ∧ asks c (.receive d fails) = [] := by
  simp [asks, hd]

theorem client_step (c : C) {s t : System C} {e : Event C} (h : step s e = some t) :
    run Requester.step (s.client c) (asks c e) = some (t.client c) := by
  cases step_cases h with
  | sent d hleft hphase hfree =>
      by_cases hd : d = c
      · subst hd
        simp [asks, run, Requester.step, System.client, hleft, hphase, hfree,
          List.replicate_succ']
      · rw [(asks_of_ne hd false).1]
        simp [run, System.client, Function.update_of_ne (Ne.symm hd)]
  | notSent d fails hleft hphase hwhy =>
      by_cases hd : d = c
      · subst hd
        simp [asks, run, Requester.step, System.client, hleft, hphase, hwhy]
      · rw [(asks_of_ne hd fails).1]
        simp [run, System.client, Function.update_of_ne (Ne.symm hd)]
  | received d k rest hleft hphase hfree hq =>
      by_cases hd : d = c
      · subst hd
        simp [asks, run, Requester.step, System.client, System.endIteration, hleft, hphase]
      · rw [(asks_of_ne hd false).2]
        simp [run, System.client, System.endIteration, Function.update_of_ne (Ne.symm hd)]
  | notReceived d fails hleft hphase hwhy =>
      by_cases hd : d = c
      · subst hd
        have hkept : (s.outstanding d && fails) = s.outstanding d := by
          rcases hwhy with hfree | rfl
          · simp [hfree]
          · simp
        simp [asks, run, Requester.step, System.client, System.endIteration, hleft, hphase, hkept]
      · rw [(asks_of_ne hd fails).2]
        simp [run, System.client, System.endIteration, Function.update_of_ne (Ne.symm hd)]
  | took d k rest hleft hphase hfree hq => rfl
  | notTaken client hleft hphase hwhy => rfl
  | published d k hleft hphase hq => rfl
  | notPublished hleft hphase => rfl

theorem server_step {n m : ℕ} {s t : System C} {e : Event C} (hi : Inv n m s)
    (h : step s e = some t) : run Replier.step s.server (serves e) = some t.server := by
  cases step_cases h with
  | sent d hleft hphase hfree => rfl
  | notSent d fails hleft hphase hwhy => rfl
  | received d k rest hleft hphase hfree hq => rfl
  | notReceived d fails hleft hphase hwhy => rfl
  | took d k rest hleft hphase hfree hq =>
      simp [serves, run, Replier.step, System.server, hleft, hphase, hfree]
  | notTaken client hleft hphase hwhy =>
      have hwhy' : s.unanswered = none → client = none := fun hnone => by
        simpa [hnone] using hwhy
      simpa [serves, run, Replier.step, System.server, System.waste, System.endServerIteration,
        hleft, hphase] using hwhy'
  | published d k hleft hphase hq =>
      simp [serves, run, Replier.step, System.server, System.endServerIteration, hleft, hphase, hq]
  | notPublished hleft hphase =>
      simp [serves, run, Replier.step, System.server, System.waste, System.endServerIteration,
        hleft, hphase, (hi.publishing hphase).2]

/-! ## The loop of a client -/

/-- The numbers of the replies taken are those of the first requests. -/
theorem Inv.taken_eq {n m : ℕ} {s : System C} (h : Inv n m s) (c : C) :
    s.taken c = List.range (s.taken c).length := by
  have hprefix : s.taken c <+: List.range (s.accepted c) := by
    rw [← h.order c, List.append_assoc, List.append_assoc]
    exact List.prefix_append _ _
  rw [List.prefix_iff_eq_take.mp hprefix, List.take_range, List.length_range]

/-- The calls of the loop turned out as the client's did. -/
def FollowsClient (es : List (Event C)) (c : C) (its : List RequestLoop.Iteration) : Prop :=
  (its.map fun it => it.calls.map fun _ => ()) = (asked (es.flatMap (asks c))).1

theorem exists_followsClient (es : List (Event C)) (c : C) (strerror : Errno → String)
    (impl : Impl) : ∃ its t,
      run (RequestLoop.iterate strerror) (.start impl fun _ => none) its = some t ∧
        FollowsClient es c its := by
  let request := RequestLoop.messages[Fin.last 2].toUTF8.data.toList
  obtain ⟨its, t, ht, hcalls⟩ := RequestLoop.exists_run strerror impl
    (p := (asked (es.flatMap (asks c))).1.map (Round.map fun _ => request)) (by
      intro r hr
      obtain ⟨r, -, rfl⟩ := List.mem_map.mp hr
      exact ⟨Fin.last 2, rfl⟩)
  refine ⟨its, t, ht, ?_⟩
  have hunit : (Round.map fun _ : Bytes => ()) ∘ (Round.map fun _ : Unit => request) = id := rfl
  have hmap := congrArg (List.map (Round.map fun _ => ())) hcalls
  rwa [List.map_map, List.map_map, hunit, List.map_id] at hmap

/-- In any run of the network, with any calls failing, let a client be
between two iterations. The loop of `req_rep_client` has a run whose calls
turned out as the client's did. In each run like that it has reported as
many accepted requests and as many replies as the network has of the client,
the replies in the order of the requests, and its socket waits for a reply
when the client's does. -/
theorem client_loop {n m : ℕ} {es : List (Event C)} {s : System C}
    (hr : run step (.start n m) es = some s) {c : C} (hphase : s.receiving c = false)
    (strerror : Errno → String) (impl : Impl) :
    (∃ its t, run (RequestLoop.iterate strerror) (.start impl fun _ => none) its = some t ∧
      FollowsClient es c its) ∧
    ∀ heap its t, run (RequestLoop.iterate strerror) (.start impl heap) its = some t →
      FollowsClient es c its →
        s.left c + its.length = n ∧ s.outstanding c = t.client.outstanding.isSome ∧
        s.accepted c = (accepted t.reports).length ∧
        s.taken c = List.range (replied t.reports).length ∧
        accepted t.reports = replied t.reports ++ t.client.outstanding.toList := by
  refine ⟨exists_followsClient es c strerror impl, ?_⟩
  intro heap its t ht hcalls
  have hi := (inv_step n m).run hr (inv_start n m)
  have hview : run Requester.step (.start n) (es.flatMap (asks c)) = some (s.client c) :=
    run_flatMap (I := fun _ => True) (fun _ _ _ _ _ => trivial)
      (fun _ _ _ _ h => client_step c h) trivial hr
  obtain ⟨hleft, houtstanding, haccepted, hbalance⟩ :=
    RequestLoop.reports_of_calls (fun _ => ()) ht hview hphase hcalls
  have hcount : s.accepted c = (accepted t.reports).length := by
    simpa [System.client] using congrArg List.length haccepted
  refine ⟨hleft, houtstanding, hcount, ?_, hbalance⟩
  have hlength := congrArg List.length hbalance
  have htaken := hi.outstanding c
  rw [show s.outstanding c = t.client.outstanding.isSome from houtstanding, hcount, hlength,
    List.length_append] at htaken
  have hsame : (s.taken c).length = (replied t.reports).length := by
    cases ho : t.client.outstanding <;> simpa [ho] using htaken.symm
  rw [hi.taken_eq c, hsame]

theorem client_loop_oneReply : ∃ (s : System Unit) (t : RequestLoop.Loop),
    run step (.start 1 1) oneReply = some s ∧
    run (RequestLoop.iterate fun _ => "") (.start (.start .request 0 false) fun _ => none)
      [RequestLoop.playing (Fin.last 2) false false] = some t ∧ s.taken () = [0] ∧
    (replied t.reports).length = 1 := by
  obtain ⟨s, hr, htaken, hphase⟩ : ∃ s : System Unit, run step (.start 1 1) oneReply = some s ∧
      s.taken () = [0] ∧ s.receiving () = false := ⟨_, rfl, rfl, rfl⟩
  obtain ⟨t, ht⟩ : ∃ t, run (RequestLoop.iterate fun _ => "")
      (.start (.start .request 0 false) fun _ => none)
      [RequestLoop.playing (Fin.last 2) false false] = some t := ⟨_, rfl⟩
  have hloop := ((client_loop hr hphase _ _).2 _ _ t ht rfl).2.2.2.1
  refine ⟨s, t, hr, ht, htaken, ?_⟩
  have hlength := congrArg List.length hloop
  rw [htaken, List.length_range] at hlength
  exact hlength.symm

/-! ## The loop of the server -/

def FollowsServer (es : List (Event C)) (as : List ReplyLoop.Action) : Prop :=
  ReplyLoop.loopCalls .server as = (servings (es.flatMap serves)).1

theorem exists_followsServer {D : Type} (es : List (Event D)) (strerror : Errno → String)
    {impl : Impl} (htype : impl.type = .reply) : ∃ as t,
      run (ReplyLoop.step strerror .server) (.start impl fun _ => none) as = some t ∧
        FollowsServer es as := by
  obtain ⟨as, t, ht, hcalls, -⟩ := ReplyLoop.exists_run strerror .server htype
    ((servings (es.flatMap serves)).1.map fun calls => ([], calls)) (by
      intro request hrequest
      obtain ⟨-, rfl⟩ : ¬ (servings (es.flatMap serves)).1 = [] ∧ request = [] := by
        simpa using hrequest
      decide)
  refine ⟨as, t, ht, ?_⟩
  rw [FollowsServer, hcalls, List.map_map]
  exact List.map_id _

/-- In any run of the network, with any calls failing, let the server be
between two iterations. The loop of `req_rep_server` has a run whose calls
turned out as the server's did. In each run like that, whatever requests
came to it and when, the loop has answered as many of them as the network's
server has published replies, and has left one unanswered when the server
has. -/
theorem server_loop {n m : ℕ} {es : List (Event C)} {s : System C}
    (hr : run step (.start n m) es = some s) (hphase : s.publishing = false)
    (strerror : Errno → String) {impl : Impl} (htype : impl.type = .reply) :
    (∃ as t, run (ReplyLoop.step strerror .server) (.start impl fun _ => none) as = some t ∧
      FollowsServer es as) ∧
    ∀ heap as t, run (ReplyLoop.step strerror .server) (.start impl heap) as = some t →
      FollowsServer es as →
        s.serverLeft + (ReplyLoop.loopCalls .server as).length = m ∧
        s.published = t.desk.answered.length ∧
        s.unanswered.isSome = t.desk.unanswered.isSome := by
  refine ⟨exists_followsServer es strerror htype, ?_⟩
  intro heap as t ht hcalls
  have hview : run Replier.step (.start m) (es.flatMap serves) = some s.server :=
    run_flatMap (inv_step n m) (fun _ _ _ hi h => server_step hi h) (inv_start n m) hr
  have hstage : s.server.stage = .receiving := by simp [System.server, hphase]
  obtain ⟨hleft, hreceived, hunanswered, haccounts, -⟩ :=
    ReplyLoop.received_of_calls htype ht hview hstage hcalls
  refine ⟨hleft, ?_, hunanswered⟩
  have hsame : s.unanswered.isSome = t.desk.unanswered.isSome := hunanswered
  rw [haccounts.received, List.length_append] at hreceived
  simp only [System.server, hsame] at hreceived
  cases hu : t.desk.unanswered <;> simpa [hu] using hreceived

theorem server_loop_oneReply : ∃ (s : System Unit) (t : ReplyLoop.Loop),
    run step (.start 1 1) oneReply = some s ∧
    run (ReplyLoop.step (fun _ => "") .server) (.start (.start .reply 0 false) fun _ => none)
      ReplyLoop.oneRequest = some t ∧ s.published = 1 ∧ t.desk.answered.length = 1 := by
  obtain ⟨s, hr, hpublished, hphase⟩ : ∃ s : System Unit,
      run step (.start 1 1) oneReply = some s ∧ s.published = 1 ∧ s.publishing = false :=
    ⟨_, rfl, rfl, rfl⟩
  obtain ⟨t, ht⟩ : ∃ t, run (ReplyLoop.step (fun _ => "") .server)
      (.start (.start .reply 0 false) fun _ => none) ReplyLoop.oneRequest = some t := ⟨_, rfl⟩
  have hloop := ((server_loop hr hphase _ rfl).2 _ _ t ht rfl).2.1
  exact ⟨s, t, hr, ht, hpublished, hloop.symm.trans hpublished⟩

end Direct

end ZeromqAgent
