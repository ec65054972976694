import ZeromqAgent.Agreement
import ZeromqAgent.RelayTurns
import Mathlib.Data.Fintype.Sum
import Mathlib.Tactic.DeriveFintype

/-!
# Progress of the network

Once the clients stop sending, the network runs dry: every other event
moves a message nearer to its client or the broker nearer to the next
poll, so that only so many of them can follow one another, and as long as
a client waits for a reply one of them can happen. No fairness between
the parties is assumed.
-/

namespace ZeromqAgent

open Framing Transition

namespace RequestReply

open BrokerLoop Stations

deriving instance Fintype for Stop

/-- The steps a message has before it at most, the nine for each of its
three parts in the broker included. -/
def Stop.cost {C W : Type} : Stop C W → ℕ
  | .toRouter _ => 61
  | .asking => 33
  | .toWorker _ => 32
  | .serving _ => 31
  | .toDealer _ => 30
  | .answering => 2
  | .toClient _ => 1

/-- The receives, tests and sends a message in the broker has before it. -/
def Stop.relaying {C W : Type} : Stop C W → ℕ
  | .asking | .answering => 27
  | _ => 0

theorem Stop.cost_add_relaying_le (p : Stop C W) : p.cost + p.relaying ≤ 61 := by
  cases p <;> simp [Stop.cost, Stop.relaying]

theorem length_flatMap_frame {ms : List (List Bytes)} (h : ∀ m ∈ ms, (frame m).length = 3) :
    (ms.flatMap frame).length = 3 * ms.length := by
  induction ms with
  | nil => rfl
  | cons m ms ih =>
      have hm := h m List.mem_cons_self
      have hms := ih fun x hx => h x (List.mem_cons_of_mem m hx)
      simp only [List.flatMap_cons, List.length_append, List.length_cons]
      omega

def Event.asks {C W : Type} : Event C W → Prop
  | .send _ _ => True
  | _ => False

section

variable {C W : Type} [Fintype C] [Fintype W] [DecidableEq C] [DecidableEq W]

def work (s : System C W) : ℕ := load Stop.cost (contents s) + s.broker.work

end

/-- What keeps the network going. -/
structure Live {C W : Type} (s : System C W) : Prop where
  smooth : Smooth s.broker
  prompted : Prompted s.broker
  dealt_le : s.dealt ≤ s.broker.relayed .frontend
  routed_le : s.routed ≤ s.broker.relayed .backend

theorem live_start {C W : Type} : Live (.start : System C W) where
  smooth := smooth_start
  prompted := by simp [Prompted, System.start, Loop.start]
  dealt_le := Nat.zero_le _
  routed_le := Nat.zero_le _

theorem Live.arrive {C W : Type} {s t : System C W} (hl : Live s) {d : Side} {m : Multipart}
    (ht : t.broker = s.broker.arrive d m) (hdealt : t.dealt = s.dealt)
    (hrouted : t.routed = s.routed) : Live t := by
  refine ⟨ht ▸ smooth_step (a := .arrive d m) trivial rfl hl.smooth, ?_, ?_, ?_⟩
  · rw [ht]
    exact hl.prompted
  · rw [ht, hdealt]
    exact hl.dealt_le
  · rw [ht, hrouted]
    exact hl.routed_le

variable {C W : Type} [DecidableEq C] [DecidableEq W] {net : Routing C}
variable {answer : W → Bytes → Bytes} {s t : System C W} {T : C → Ticket C W}

theorem live_step (net : Routing C) (answer : W → Bytes → Bytes) :
    Preserves (step net answer) Live := by
  intro s e t h hl
  cases e with
  | send c request =>
      simp only [step, Option.ite_none_left_eq_some, Option.some.injEq] at h
      obtain ⟨-, rfl⟩ := h
      exact ⟨hl.smooth, hl.prompted, hl.dealt_le, hl.routed_le⟩
  | uplink c =>
      cases hq : s.toRouter c with
      | nil => simp [step, hq] at h
      | cons m rest =>
          simp only [step, hq, Option.some.injEq] at h
          subst h
          exact hl.arrive rfl rfl rfl
  | relay =>
      obtain ⟨b, hb, rfl⟩ := Option.map_eq_some_iff.mp h
      refine ⟨smooth_step (a := .call) trivial hb hl.smooth, prompted_call hb, ?_, ?_⟩
      · exact hl.dealt_le.trans (relayed_mono hb .frontend)
      · exact hl.routed_le.trans (relayed_mono hb .backend)
  | deal w =>
      cases hm : (messages (s.broker.sent .backend))[s.dealt]? with
      | none => simp [step, hm] at h
      | some m =>
          simp only [step, hm, Option.some.injEq] at h
          subst h
          exact ⟨hl.smooth, hl.prompted, (List.getElem?_eq_some_iff.mp hm).1, hl.routed_le⟩
  | take w =>
      simp only [step] at h
      split at h
      · split at h
        · obtain rfl := Option.some.inj h
          exact ⟨hl.smooth, hl.prompted, hl.dealt_le, hl.routed_le⟩
        · cases h
      · cases h
  | answer w =>
      cases hq : s.serving w with
      | none => simp [step, hq] at h
      | some r =>
          simp only [step, hq, Option.some.injEq] at h
          subst h
          exact ⟨hl.smooth, hl.prompted, hl.dealt_le, hl.routed_le⟩
  | downlink w =>
      cases hq : s.toDealer w with
      | nil => simp [step, hq] at h
      | cons m rest =>
          simp only [step, hq, Option.some.injEq] at h
          subst h
          exact hl.arrive rfl rfl rfl
  | route =>
      cases hm : (messages (s.broker.sent .frontend))[s.routed]? with
      | none => simp [step, hm] at h
      | some m =>
          simp only [step, hm, Option.some.injEq] at h
          subst h
          exact ⟨hl.smooth, hl.prompted, hl.dealt_le, (List.getElem?_eq_some_iff.mp hm).1⟩
  | receive c =>
      simp only [step] at h
      split at h
      · obtain ⟨body, -, rfl⟩ := Option.map_eq_some_iff.mp h
        exact ⟨hl.smooth, hl.prompted, hl.dealt_le, hl.routed_le⟩
      · cases h

theorem lively_start : (∃ T, Located net answer (.start : System C W) T) ∧
    Live (.start : System C W) := ⟨⟨_, located_start⟩, live_start⟩

theorem lively_step (net : Routing C) (answer : W → Bytes → Bytes) :
    Preserves (step net answer) fun s => (∃ T, Located net answer s T) ∧ Live s :=
  fun _ _ _ h hs => ⟨located_step net answer h hs.1, live_step net answer h hs.2⟩

/-! ## Every event but a send uses up work -/

/-- Each message in the broker has three parts. -/
theorem Located.length_frame (hl : Located net answer s T) {p : Stop C W}
    (hp : p = .asking ∨ p = .answering) : ∀ m ∈ contents s p, (frame m).length = 3 := by
  intro m hm
  obtain ⟨is, -, -, heq⟩ := hl.carries p
  rw [heq] at hm
  obtain ⟨c, -, rfl⟩ := List.mem_map.mp hm
  rcases hp with rfl | rfl <;> rfl

section

variable [Fintype C] [Fintype W]

/-- A message moves to a stop nearer to its client. -/
theorem work_of_move {p r : Stop C W} {m n : List Bytes} {rest : List (List Bytes)}
    (hq : contents s p = m :: rest) (hr : r ≠ p)
    (hcontents : contents t =
      Function.update (Function.update (contents s) p rest) r (contents s r ++ [n]))
    (hwork : t.broker.work + r.cost < s.broker.work + p.cost) : work t < work s := by
  have hload := load_move Stop.cost n hq hr
  rw [work, work, hcontents]
  omega

theorem work_uplink (hl : Located net answer s T) {c : C}
    (h : step net answer s (.uplink c) = some t) : work t < work s := by
  cases hq : s.toRouter c with
  | nil => simp [step, hq] at h
  | cons m rest =>
      simp only [step, hq, Option.some.injEq] at h
      subst t
      obtain ⟨c', -, hm, -⟩ := hl.carries.move (p := .toRouter c) hq
      refine work_of_move (p := .toRouter c) (r := .asking) (n := net.ident c :: m) hq (by simp)
        ?_ ?_
      · funext p
        cases p with
        | asking =>
            simp only [contents, Function.update_self, drop_arrived hl.dealt_le]
            rfl
        | answering => simp [contents, Loop.arrive]
        | _ => simp [contents, Function.update_apply]
      · have hframe : (frame (routerReceive (net.ident c) m).val).length = 3 := by rw [hm]; rfl
        simp only [work_arrive, hframe, Stop.cost]
        omega

theorem work_downlink (hl : Located net answer s T) {w : W}
    (h : step net answer s (.downlink w) = some t) : work t < work s := by
  cases hq : s.toDealer w with
  | nil => simp [step, hq] at h
  | cons m rest =>
      simp only [step, hq, Option.some.injEq] at h
      subst t
      have hhead : contents s (.toDealer w) = m.val :: rest.map Subtype.val := by
        simp [contents, hq]
      obtain ⟨c, -, hm, -⟩ := hl.carries.move hhead
      refine work_of_move (r := .answering) (n := m.val) hhead (by simp) ?_ ?_
      · funext p
        cases p with
        | asking => simp [contents, Loop.arrive]
        | answering => simp only [contents, Function.update_self, drop_arrived hl.routed_le]
        | toDealer w' => by_cases hw : w' = w <;> simp [contents, hw]
        | _ => simp [contents]
      · have hframe : (frame m.val).length = 3 := by rw [hm]; rfl
        simp only [work_arrive, hframe, Stop.cost]
        omega

theorem work_deal (hl : Located net answer s T) {w : W}
    (h : step net answer s (.deal w) = some t) : work t < work s := by
  cases hm : (messages (s.broker.sent .backend))[s.dealt]? with
  | none => simp [step, hm] at h
  | some m =>
      simp only [step, hm, Option.some.injEq] at h
      subst t
      obtain ⟨hdrop, -⟩ := drop_of_completed (hl.relayed .frontend) hm
      refine work_of_move (p := .asking) (r := .toWorker w) (n := m) hdrop (by simp) ?_ ?_
      · funext p
        cases p <;> simp [contents, Function.update_apply]
      · simp [Stop.cost]

theorem work_route (hl : Located net answer s T) (h : step net answer s .route = some t) :
    work t < work s := by
  cases hm : (messages (s.broker.sent .frontend))[s.routed]? with
  | none => simp [step, hm] at h
  | some m =>
      simp only [step, hm, Option.some.injEq] at h
      subst t
      obtain ⟨hdrop, -⟩ := drop_of_completed (hl.relayed .backend) hm
      obtain ⟨c, -, hmc, -⟩ := hl.carries.move (p := .answering) hdrop
      have hsend : routerSend net s.toClient m =
          Function.update s.toClient c (s.toClient c ++ [reqSend ((T c).reply answer)]) := by
        rw [hmc]
        simp [routerSend, message, net.peer_ident, reqSend]
      refine work_of_move (p := .answering) (r := .toClient c)
        (n := reqSend ((T c).reply answer)) hdrop (by simp) ?_ ?_
      · funext p
        cases p with
        | toClient c' => by_cases hc : c' = c <;> simp [hc, hsend, contents]
        | _ => simp [contents]
      · simp [Stop.cost]

theorem work_take (h : step net answer s (.take w) = some t) : work t < work s := by
  cases hidle : s.serving w with
  | some r => simp [step, hidle] at h
  | none =>
      cases hq : s.toWorker w with
      | nil => simp [step, hidle, hq] at h
      | cons m rest =>
          cases hm : repReceive m with
          | none => simp [step, hidle, hq, hm] at h
          | some r =>
              obtain ⟨envelope, parts⟩ := r
              cases parts with
              | nil => simp [step, hidle, hq, hm] at h
              | cons body parts =>
                  simp only [step, hidle, hq, hm, Option.some.injEq] at h
                  subst t
                  refine work_of_move (p := .toWorker w) (r := .serving w)
                    (n := envelope ++ [body]) hq (by simp) ?_ ?_
                  · funext p
                    cases p with
                    | serving w' => by_cases hw : w' = w <;> simp [contents, hw, hidle]
                    | toWorker w' => by_cases hw : w' = w <;> simp [contents, hw]
                    | _ => simp [contents]
                  · simp [Stop.cost]

theorem work_answer {w : W} (h : step net answer s (.answer w) = some t) : work t < work s := by
  cases hq : s.serving w with
  | none => simp [step, hq] at h
  | some r =>
      obtain ⟨envelope, body⟩ := r
      simp only [step, hq, Option.some.injEq] at h
      subst t
      have hhead : contents s (.serving w) = [envelope ++ [body]] := by simp [contents, hq]
      refine work_of_move (r := .toDealer w) (n := envelope ++ [answer w body]) hhead (by simp)
        ?_ ?_
      · funext p
        cases p with
        | serving w' => by_cases hw : w' = w <;> simp [contents, hw]
        | toDealer w' => by_cases hw : w' = w <;> simp [contents, hw, repSend]
        | _ => simp [contents]
      · simp [Stop.cost]

theorem work_receive {c : C} (h : step net answer s (.receive c) = some t) : work t < work s := by
  cases hwait : s.waiting c with
  | false => simp [step, hwait] at h
  | true =>
      cases hq : s.toClient c with
      | nil => simp [step, hwait, hq] at h
      | cons m rest =>
          simp only [step, hwait, hq] at h
          obtain ⟨body, -, rfl⟩ := Option.map_eq_some_iff.mp h
          have hcontents : contents { s with
              waiting := Function.update s.waiting c false
              toClient := Function.update s.toClient c rest
              taken := Function.update s.taken c (s.taken c ++ [body]) } =
                Function.update (contents s) (.toClient c) rest := by
            funext p
            cases p <;> simp [contents, Function.update_apply]
          have hload := load_leave Stop.cost (q := contents s) (p := .toClient c) hq
          have hlt : load Stop.cost (Function.update (contents s) (.toClient c) rest) <
              load Stop.cost (contents s) := by
            rw [← hload]
            exact Nat.lt_add_of_pos_right Nat.one_pos
          rw [work, work, hcontents]
          exact Nat.add_lt_add_right hlt _

theorem work_relay (hl : Live s) (h : step net answer s .relay = some t) : work t < work s := by
  obtain ⟨b, hb, rfl⟩ := Option.map_eq_some_iff.mp h
  have hcontents : contents { s with broker := b } = contents s := by
    funext p
    cases p <;> simp [contents, arrived_of_call hb]
  have hlt := work_call hl.prompted hb
  rw [work, work, hcontents]
  exact Nat.add_lt_add_left hlt _

theorem work_decreases (net : Routing C) (answer : W → Bytes → Bytes) :
    Decreases (step net answer) (fun _ e => ¬ e.asks)
      (fun s => (∃ T, Located net answer s T) ∧ Live s) (work (C := C) (W := W)) := by
  rintro s e t ⟨⟨T, hl⟩, hlive⟩ he h
  cases e with
  | send c request => exact (he trivial).elim
  | uplink c => exact work_uplink hl h
  | relay => exact work_relay hlive h
  | deal w => exact work_deal hl h
  | take w => exact work_take h
  | answer w => exact work_answer h
  | downlink w => exact work_downlink hl h
  | route => exact work_route hl h
  | receive c => exact work_receive h

/-! ## How much work there is -/

theorem Located.parts_le (hl : Located net answer s T) (hlive : Live s) :
    9 * s.broker.parts ≤ load Stop.relaying (contents s) := by
  have hfront := ((hl.relayed .frontend).inbound_le hlive.dealt_le).trans_eq
    (length_flatMap_frame (hl.length_frame (p := .asking) (Or.inl rfl)))
  have hback := ((hl.relayed .backend).inbound_le hlive.routed_le).trans_eq
    (length_flatMap_frame (hl.length_frame (p := .answering) (Or.inr rfl)))
  have hpair := le_load_pair Stop.relaying (q := contents s)
    (show (Stop.asking : Stop C W) ≠ .answering by simp)
  simp only [Stop.relaying, contents] at hpair
  rw [Loop.parts]
  omega

/-- A waiting client accounts for no more than the cost of a request just sent. -/
theorem Located.work_le (hl : Located net answer s T) (hlive : Live s) :
    work s ≤ 61 * (Finset.univ.filter fun c => s.waiting c).card + 11 := by
  have hrank := Pc.rank_le s.broker.revents s.broker.pc
  have hparts := hl.parts_le hlive
  have hload : load Stop.cost (contents s) + load Stop.relaying (contents s) ≤
      61 * (Finset.univ.filter fun c => s.waiting c).card := by
    rw [← load_add, hl.carries.load_eq, Finset.card_filter, Finset.mul_sum]
    apply Finset.sum_le_sum
    intro c _
    rw [← (hl.describes c).waiting]
    cases (T c).place with
    | none => simp
    | some p => simpa using p.cost_add_relaying_le
  rw [work, Loop.work]
  omega

end

/-! ## As long as a client waits, some event can happen -/

theorem Located.exists_head (hl : Located net answer s T) {c : C} {p : Stop C W}
    (hp : (T c).place = some p) : ∃ c' rest, (T c').place = some p ∧
      contents s p = message net answer p c' (T c') :: rest := by
  obtain ⟨is, -, hmem, heq⟩ := hl.carries p
  have hc : c ∈ is := (hmem c).mpr hp
  cases is with
  | nil => cases hc
  | cons c' is => exact ⟨c', _, (hmem c').mp List.mem_cons_self, heq⟩

/-- A message that has come to the broker leaves it, or the broker works. -/
theorem exists_relay (hlive : Live s) {d : Side} {n : ℕ}
    (hn : (messages (s.broker.sent d.other))[n]? = none) (hlt : n < (s.broker.arrived d).length) :
    ∃ t, step net answer s .relay = some t := by
  have hle : s.broker.relayed d ≤ n := List.getElem?_eq_none_iff.mp hn
  obtain ⟨b, hb⟩ := exists_call_of_behind hlive.smooth (hle.trans_lt hlt)
  exact ⟨{ s with broker := b }, by rw [step, hb]; rfl⟩

theorem exists_event [Nonempty W] (hl : Located net answer s T) (hlive : Live s) {c : C}
    (hw : s.waiting c = true) : ∃ e : Event C W, ¬ e.asks ∧ ∃ t, step net answer s e = some t := by
  obtain ⟨p, hp⟩ : ∃ p, (T c).place = some p := by
    rw [← Option.isSome_iff_exists, (hl.describes c).waiting, hw]
  obtain ⟨c', rest, hc', hq⟩ := hl.exists_head hp
  cases p with
  | toRouter d =>
      have hq : s.toRouter d = _ := hq
      exact ⟨.uplink d, id, by simp [step, hq]⟩
  | asking =>
      cases hm : (messages (s.broker.sent .backend))[s.dealt]? with
      | some m => exact ⟨.deal (Classical.arbitrary W), id, by simp [step, hm]⟩
      | none =>
          have hlt : s.dealt < (s.broker.arrived .frontend).length := by
            have hne : (s.broker.arrived .frontend).drop s.dealt ≠ [] := by
              rw [show (s.broker.arrived .frontend).drop s.dealt = _ from hq]
              exact List.cons_ne_nil _ _
            simpa using hne
          exact ⟨.relay, id, exists_relay hlive (d := .frontend) hm hlt⟩
  | toWorker w =>
      have hq : s.toWorker w = [net.ident c', [], (T c').request] :: rest := hq
      cases hidle : s.serving w with
      | some r => exact ⟨.answer w, id, by simp [step, hidle]⟩
      | none =>
          have hreceive := repReceive_ident (net.ident_ne_nil c') [(T c').request]
          exact ⟨.take w, id, by simp [step, hidle, hq, hreceive]⟩
  | serving w =>
      cases hserving : s.serving w with
      | some r => exact ⟨.answer w, id, by simp [step, hserving]⟩
      | none => simp [contents, hserving] at hq
  | toDealer w =>
      cases hdealer : s.toDealer w with
      | cons m rest => exact ⟨.downlink w, id, by simp [step, hdealer]⟩
      | nil => simp [contents, hdealer] at hq
  | answering =>
      cases hm : (messages (s.broker.sent .frontend))[s.routed]? with
      | some m => exact ⟨.route, id, by simp [step, hm]⟩
      | none =>
          have hlt : s.routed < (s.broker.arrived .backend).length := by
            have hne : (s.broker.arrived .backend).drop s.routed ≠ [] := by
              rw [show (s.broker.arrived .backend).drop s.routed = _ from hq]
              exact List.cons_ne_nil _ _
            simpa using hne
          exact ⟨.relay, id, exists_relay hlive (d := .backend) hm hlt⟩
  | toClient d =>
      have hown : d = c' := (hl.describes c').ok.own d (Or.inr hc')
      have hwait : s.waiting d = true := by
        rw [hown, ← (hl.describes c').waiting, hc']
        rfl
      have hq : s.toClient d = reqSend ((T c').reply answer) :: rest := hq
      exact ⟨.receive d, id, by simp [step, hwait, hq, reqSend, reqReceive]⟩

/-- Only a send adds to what was sent. -/
theorem sent_of_not_asks {e : Event C W} (he : ¬ e.asks) (h : step net answer s e = some t) :
    t.sent = s.sent := by
  cases e with
  | send c request => exact (he trivial).elim
  | relay =>
      obtain ⟨b, -, rfl⟩ := Option.map_eq_some_iff.mp h
      rfl
  | receive c =>
      simp only [step] at h
      split at h
      · obtain ⟨body, -, rfl⟩ := Option.map_eq_some_iff.mp h
        rfl
      · cases h
  | take w =>
      simp only [step] at h
      split at h
      · split at h
        · obtain rfl := Option.some.inj h
          rfl
        · cases h
      · cases h
  | uplink c | deal w | answer w | downlink w | route =>
      simp only [step] at h
      split at h
      · cases h
      · obtain rfl := Option.some.inj h
        rfl

section

variable [Fintype C] [Fintype W] [Nonempty W]

/-- From every reachable state, with `n` clients waiting, at most `61 n + 11`
events can happen before a client sends again. When none can any more,
every client has taken a reply to each of its requests, and such a state
is reached whatever happened before. -/
theorem progress (net : Routing C) (answer : W → Bytes → Bytes) {es : List (Event C W)}
    {s : System C W} (hr : run (step net answer) .start es = some s) :
    (∀ fs t, (∀ e ∈ fs, ¬ e.asks) → run (step net answer) s fs = some t →
      fs.length ≤ 61 * (Finset.univ.filter fun c => s.waiting c).card + 11 ∧
      ((∀ e, ¬ e.asks → step net answer t e = none) → ∀ c, t.waiting c = false ∧
        t.sent c = s.sent c ∧ (t.taken c).length = (s.sent c).length)) ∧
    ∃ fs t, (∀ e ∈ fs, ¬ e.asks) ∧ run (step net answer) s fs = some t ∧
      ∀ e, ¬ e.asks → step net answer t e = none := by
  have hinv := lively_step net answer
  have hs := hinv.run hr lively_start
  have hkeep : PreservesUnder (step net answer) (fun _ e => ¬ e.asks)
      fun s => (∃ T, Located net answer s T) ∧ Live s := fun u e v _ h hu => hinv h hu
  constructor
  · intro fs t hfs hrun
    have hm : Meets (step net answer) (fun _ e => ¬ e.asks) s fs :=
      meets_of_forall_mem (fun e he _ => hfs e he) s
    obtain ⟨T, hl⟩ := hs.1
    have hlength := (work_decreases net answer).length_add_le hkeep hs hm hrun
    have hwork := hl.work_le hs.2
    refine ⟨by omega, ?_⟩
    intro hstuck c
    obtain ⟨⟨T', hl'⟩, hlive⟩ := hinv.run hrun hs
    have hidle : t.waiting c = false := by
      by_contra hw
      obtain ⟨e, he, v, hv⟩ := exists_event hl' hlive (Bool.eq_true_of_not_eq_false hw)
      rw [hstuck e he] at hv
      cases hv
    have hsent : t.sent = s.sent := PreservesUnder.run (P := fun u => u.sent = s.sent)
      (fun u e v he h hu => (sent_of_not_asks he h).trans hu) hm hrun rfl
    have hall := (hl'.agrees c).outstanding
    rw [hidle, hsent] at hall
    exact ⟨hidle, congrFun hsent c, hall.symm⟩
  · obtain ⟨fs, t, hm, hrun, hend⟩ := (work_decreases net answer).exists_exhausted hkeep hs
    exact ⟨fs, t, forall_mem_of_meets hm hrun, hrun, hend⟩

/-- Two clients wait. -/
def twoRequests : List (Event Bool Unit) := [.send true [7], .send false [8]]

theorem progress_twoRequests : ∃ s : System Bool Unit,
    run (step pairRouting fun _ request => request ++ [0]) .start twoRequests = some s ∧
      ∀ fs t, (∀ e ∈ fs, ¬ e.asks) →
        run (step pairRouting fun _ request => request ++ [0]) s fs = some t → fs.length ≤ 133 := by
  refine ⟨_, rfl, ?_⟩
  intro fs t hfs hrun
  have hr : run (step pairRouting fun _ request => request ++ [0]) .start twoRequests = some _ :=
    rfl
  exact ((progress pairRouting (fun _ request => request ++ [0]) hr).1 fs t hfs hrun).1

end

end RequestReply

end ZeromqAgent
