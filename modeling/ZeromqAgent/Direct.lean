import ZeromqAgent.Theory.Simulation
import ZeromqAgent.Theory.Stations

/-!
# Clients and a server without a broker

`req_rep_client` connected to the socket that `req_rep_server` binds: any
number of clients, each in a loop of as many iterations as the constant
says, and one server with a loop of its own. Any call may fail. The REQ
socket rejects a send while a reply is outstanding and a receive while
none is, the REP socket a receive while a request is unanswered; the loops
go on as the test program's do. Requests are numbered by client in the
order in which its socket accepted them.
-/

namespace ZeromqAgent

namespace Direct

open Stations Transition

def iterationsNum : ℕ := 100

/-- `left` and `serverLeft` are the iterations that have not ended,
`receiving` and `publishing` tell which of its two calls a loop is at.
`accepted`, `taken` and `published` are history, and `wasted` counts the
server's iterations that ended without a reply. -/
structure System (C : Type) where
  left : C → ℕ
  receiving : C → Bool
  outstanding : C → Bool
  toServer : C → List ℕ
  serverLeft : ℕ
  publishing : Bool
  unanswered : Option (C × ℕ)
  toClient : C → List ℕ
  accepted : C → ℕ
  taken : C → List ℕ
  published : ℕ
  wasted : ℕ

def System.start {C : Type} (n m : ℕ) : System C where
  left := fun _ => n
  receiving := fun _ => false
  outstanding := fun _ => false
  toServer := fun _ => []
  serverLeft := m
  publishing := false
  unanswered := none
  toClient := fun _ => []
  accepted := fun _ => 0
  taken := fun _ => []
  published := 0
  wasted := 0

/-- The calls of the loops, with whether they fail for reasons of their
own. The server's receive takes the request of a client, or fails. -/
inductive Event (C : Type) where
  | send (c : C) (fails : Bool)
  | receive (c : C) (fails : Bool)
  | take (client : Option C)
  | publish (fails : Bool)

def Event.fails {C : Type} : Event C → Bool
  | .send _ fails | .receive _ fails | .publish fails => fails
  | .take client => client.isNone

variable {C : Type} [DecidableEq C]

def System.endIteration (s : System C) (c : C) : System C :=
  { s with
    left := Function.update s.left c (s.left c - 1)
    receiving := Function.update s.receiving c false }

def System.endServerIteration (s : System C) : System C :=
  { s with serverLeft := s.serverLeft - 1, publishing := false }

def System.waste (s : System C) : System C :=
  { s.endServerIteration with wasted := s.wasted + 1 }

/-- A receive waits while nothing is there that it could take. -/
def step (s : System C) : Event C → Option (System C)
  | .send c fails =>
      if s.left c ≠ 0 ∧ s.receiving c = false then
        let s' := { s with receiving := Function.update s.receiving c true }
        if s.outstanding c = true ∨ fails = true then some s'
        else some { s' with
          outstanding := Function.update s.outstanding c true
          toServer := Function.update s.toServer c (s.toServer c ++ [s.accepted c])
          accepted := Function.update s.accepted c (s.accepted c + 1) }
      else none
  | .receive c fails =>
      if s.left c ≠ 0 ∧ s.receiving c = true then
        if s.outstanding c = false ∨ fails = true then some (s.endIteration c)
        else
          match s.toClient c with
          | [] => none
          | k :: rest => some { s.endIteration c with
              outstanding := Function.update s.outstanding c false
              toClient := Function.update s.toClient c rest
              taken := Function.update s.taken c (s.taken c ++ [k]) }
      else none
  | .take client =>
      if s.serverLeft ≠ 0 ∧ s.publishing = false then
        match s.unanswered, client with
        | some _, _ | none, none => some s.waste
        | none, some c =>
            match s.toServer c with
            | [] => none
            | k :: rest => some { s with
                toServer := Function.update s.toServer c rest
                unanswered := some (c, k)
                publishing := true }
      else none
  | .publish fails =>
      if s.serverLeft ≠ 0 ∧ s.publishing = true then
        match s.unanswered with
        | none => none
        | some (c, k) =>
            if fails then some s.waste
            else some { s.endServerIteration with
              unanswered := none
              toClient := Function.update s.toClient c (s.toClient c ++ [k])
              published := s.published + 1 }
      else none

/-- What a call does. -/
inductive Step (s : System C) : Event C → System C → Prop
  | sent (c : C) (hleft : s.left c ≠ 0) (hphase : s.receiving c = false)
      (hfree : s.outstanding c = false) : Step s (.send c false)
        { s with
          receiving := Function.update s.receiving c true
          outstanding := Function.update s.outstanding c true
          toServer := Function.update s.toServer c (s.toServer c ++ [s.accepted c])
          accepted := Function.update s.accepted c (s.accepted c + 1) }
  | notSent (c : C) (fails : Bool) (hleft : s.left c ≠ 0) (hphase : s.receiving c = false)
      (hwhy : s.outstanding c = true ∨ fails = true) : Step s (.send c fails)
        { s with receiving := Function.update s.receiving c true }
  | received (c : C) (k : ℕ) (rest : List ℕ) (hleft : s.left c ≠ 0)
      (hphase : s.receiving c = true) (hfree : s.outstanding c = true)
      (hq : s.toClient c = k :: rest) : Step s (.receive c false)
        { s.endIteration c with
          outstanding := Function.update s.outstanding c false
          toClient := Function.update s.toClient c rest
          taken := Function.update s.taken c (s.taken c ++ [k]) }
  | notReceived (c : C) (fails : Bool) (hleft : s.left c ≠ 0) (hphase : s.receiving c = true)
      (hwhy : s.outstanding c = false ∨ fails = true) :
      Step s (.receive c fails) (s.endIteration c)
  | took (c : C) (k : ℕ) (rest : List ℕ) (hleft : s.serverLeft ≠ 0)
      (hphase : s.publishing = false) (hfree : s.unanswered = none)
      (hq : s.toServer c = k :: rest) : Step s (.take (some c))
        { s with
          toServer := Function.update s.toServer c rest
          unanswered := some (c, k)
          publishing := true }
  | notTaken (client : Option C) (hleft : s.serverLeft ≠ 0) (hphase : s.publishing = false)
      (hwhy : s.unanswered.isSome ∨ client = none) : Step s (.take client) s.waste
  | published (c : C) (k : ℕ) (hleft : s.serverLeft ≠ 0) (hphase : s.publishing = true)
      (hq : s.unanswered = some (c, k)) : Step s (.publish false)
        { s.endServerIteration with
          unanswered := none
          toClient := Function.update s.toClient c (s.toClient c ++ [k])
          published := s.published + 1 }
  | notPublished (hleft : s.serverLeft ≠ 0) (hphase : s.publishing = true) :
      Step s (.publish true) s.waste

theorem step_cases {s t : System C} {e : Event C} (h : step s e = some t) : Step s e t := by
  cases e with
  | send c fails =>
      obtain ⟨⟨hleft, hphase⟩, hstep⟩ := Option.ite_none_right_eq_some.mp h
      dsimp only at hstep
      split at hstep
      · next hwhy => exact Option.some.inj hstep ▸ .notSent c fails hleft hphase hwhy
      · next hwhy =>
          obtain ⟨hfree, hok⟩ := not_or.mp hwhy
          obtain rfl := Bool.eq_false_of_not_eq_true hok
          exact Option.some.inj hstep ▸ .sent c hleft hphase (Bool.eq_false_of_not_eq_true hfree)
  | receive c fails =>
      obtain ⟨⟨hleft, hphase⟩, hstep⟩ := Option.ite_none_right_eq_some.mp h
      split at hstep
      · next hwhy => exact Option.some.inj hstep ▸ .notReceived c fails hleft hphase hwhy
      · next hwhy =>
          obtain ⟨hfree, hok⟩ := not_or.mp hwhy
          obtain rfl := Bool.eq_false_of_not_eq_true hok
          cases hq : s.toClient c with
          | nil => simp [hq] at hstep
          | cons k rest =>
              simp only [hq, Option.some.injEq] at hstep
              exact hstep ▸ .received c k rest hleft hphase (Bool.eq_true_of_not_eq_false hfree) hq
  | take client =>
      obtain ⟨⟨hleft, hphase⟩, hstep⟩ := Option.ite_none_right_eq_some.mp h
      cases hu : s.unanswered with
      | some u =>
          simp only [hu, Option.some.injEq] at hstep
          exact hstep ▸ .notTaken client hleft hphase (Or.inl (by simp [hu]))
      | none =>
          cases client with
          | none =>
              simp only [hu, Option.some.injEq] at hstep
              exact hstep ▸ .notTaken none hleft hphase (Or.inr rfl)
          | some c =>
              cases hq : s.toServer c with
              | nil => simp [hu, hq] at hstep
              | cons k rest =>
                  simp only [hu, hq, Option.some.injEq] at hstep
                  exact hstep ▸ .took c k rest hleft hphase hu hq
  | publish fails =>
      obtain ⟨⟨hleft, hphase⟩, hstep⟩ := Option.ite_none_right_eq_some.mp h
      cases hq : s.unanswered with
      | none => simp [hq] at hstep
      | some u =>
          obtain ⟨c, k⟩ := u
          cases fails with
          | true =>
              simp only [hq, if_true, Option.some.injEq] at hstep
              exact hstep ▸ .notPublished hleft hphase
          | false =>
              simp only [hq, Bool.false_eq_true, if_false, Option.some.injEq] at hstep
              exact hstep ▸ .published c k hleft hphase hq

/-! ## What is under way -/

def System.pending (s : System C) (c : C) : List ℕ :=
  s.unanswered.toList.filterMap fun u => if u.1 = c then some u.2 else none

/-- Each client's requests are, in their order, those it took the reply
to, those replied to, the one the server has in hand and those that wait. -/
structure Inv (n m : ℕ) (s : System C) : Prop where
  order : ∀ c, s.taken c ++ s.toClient c ++ s.pending c ++ s.toServer c = List.range (s.accepted c)
  outstanding : ∀ c, s.accepted c = (s.taken c).length + (s.outstanding c).toNat
  taken_le : ∀ c, (s.taken c).length + s.left c ≤ n
  publishing : s.publishing = true → s.serverLeft ≠ 0 ∧ s.unanswered.isSome
  server : s.serverLeft + s.published + s.wasted = m

theorem inv_start (n m : ℕ) : Inv n m (.start n m : System C) where
  order := fun _ => rfl
  outstanding := fun _ => rfl
  taken_le := fun _ => (Nat.zero_add n).le
  publishing := by simp [System.start]
  server := rfl

theorem inv_step (n m : ℕ) : Preserves (step (C := C)) (Inv n m) := by
  rintro s e t h ⟨horder, houtstanding, htaken, hpublishing, hserver⟩
  cases step_cases h with
  | sent c hleft hphase hfree =>
      refine ⟨?_, ?_, htaken, hpublishing, hserver⟩
      · intro d
        by_cases hd : d = c
        · subst hd
          have hd := horder d
          simp only [Function.update_self, List.range_succ, ← hd]
          simp [System.pending]
        · simpa [System.pending, Function.update_of_ne hd] using horder d
      · intro d
        by_cases hd : d = c
        · subst hd
          have hd := houtstanding d
          simpa [hfree] using hd
        · simpa [Function.update_of_ne hd] using houtstanding d
  | notSent c fails hleft hphase hwhy => exact ⟨horder, houtstanding, htaken, hpublishing, hserver⟩
  | received c k rest hleft hphase hfree hq =>
      refine ⟨?_, ?_, ?_, hpublishing, hserver⟩
      · intro d
        by_cases hd : d = c
        · subst hd
          simpa [System.pending, System.endIteration, hq] using horder d
        · simpa [System.pending, System.endIteration, Function.update_of_ne hd] using horder d
      · intro d
        by_cases hd : d = c
        · subst hd
          simpa [System.endIteration, hfree] using houtstanding d
        · simpa [System.endIteration, Function.update_of_ne hd] using houtstanding d
      · intro d
        have hle := htaken d
        by_cases hd : d = c
        · subst hd
          simp only [System.endIteration, Function.update_self, List.length_append,
            List.length_singleton]
          omega
        · simpa [System.endIteration, Function.update_of_ne hd] using hle
  | notReceived c fails hleft hphase hwhy =>
      refine ⟨horder, houtstanding, ?_, hpublishing, hserver⟩
      intro d
      have hle := htaken d
      by_cases hd : d = c
      · subst hd
        simp only [System.endIteration, Function.update_self]
        omega
      · simpa [System.endIteration, Function.update_of_ne hd] using hle
  | took c k rest hleft hphase hfree hq =>
      refine ⟨?_, houtstanding, htaken, fun _ => ⟨hleft, rfl⟩, hserver⟩
      intro d
      by_cases hd : d = c
      · subst hd
        simpa [System.pending, hfree, hq] using horder d
      · simpa [System.pending, hfree, Function.update_of_ne hd, Ne.symm hd] using horder d
  | notTaken client hleft hphase hwhy =>
      refine ⟨horder, houtstanding, htaken, by simp [System.waste, System.endServerIteration], ?_⟩
      simp only [System.waste, System.endServerIteration]
      omega
  | published c k hleft hphase hq =>
      refine ⟨?_, houtstanding, htaken, by simp [System.endServerIteration], ?_⟩
      · intro d
        by_cases hd : d = c
        · subst hd
          simpa [System.pending, System.endServerIteration, hq] using horder d
        · simpa [System.pending, System.endServerIteration, hq, Function.update_of_ne hd,
            Ne.symm hd] using horder d
      · simp only [System.endServerIteration]
        omega
  | notPublished hleft hphase =>
      refine ⟨horder, houtstanding, htaken, by simp [System.waste, System.endServerIteration], ?_⟩
      simp only [System.waste, System.endServerIteration]
      omega

/-- A client that has nothing outstanding has nothing under way. -/
theorem Inv.idle {n m : ℕ} {s : System C} (h : Inv n m s) {c : C}
    (hfree : s.outstanding c = false) :
    s.toClient c = [] ∧ s.pending c = [] ∧ s.toServer c = [] := by
  have hlength := congrArg List.length (h.order c)
  have haccepted := h.outstanding c
  rw [hfree, Bool.toNat_false, Nat.add_zero] at haccepted
  simp only [List.length_append, List.length_range, haccepted] at hlength
  simp only [← List.length_eq_zero_iff]
  omega

/-! ## Where the loops end -/

/-- No call can return, except by a failure. -/
def Stuck (s : System C) : Prop := ∀ e : Event C, e.fails = false → step s e = none

theorem Stuck.client {s : System C} (h : Stuck s) {c : C} (hleft : s.left c ≠ 0) :
    s.outstanding c = true ∧ s.toClient c = [] := by
  have hsend := h (.send c false) rfl
  have hreceive := h (.receive c false) rfl
  cases hphase : s.receiving c with
  | false =>
      rw [step, if_pos ⟨hleft, hphase⟩] at hsend
      split at hsend <;> cases hsend
  | true =>
      rw [step, if_pos ⟨hleft, hphase⟩] at hreceive
      cases hfree : s.outstanding c with
      | false => simp [hfree] at hreceive
      | true =>
          cases hq : s.toClient c with
          | nil => exact ⟨rfl, rfl⟩
          | cons k rest => simp [hfree, hq] at hreceive

theorem Stuck.server {n m : ℕ} {s : System C} (h : Stuck s) (hi : Inv n m s)
    (hleft : s.serverLeft ≠ 0) : s.unanswered = none ∧ ∀ c, s.toServer c = [] := by
  have hphase : s.publishing = false := by
    by_contra hphase
    have hphase := Bool.eq_true_of_not_eq_false hphase
    obtain ⟨u, hu⟩ := Option.isSome_iff_exists.mp (hi.publishing hphase).2
    have hpublish := h (.publish false) rfl
    rw [step, if_pos ⟨hleft, hphase⟩, hu] at hpublish
    cases hpublish
  have htake (c : C) : step s (.take (some c)) = none := h (.take (some c)) rfl
  have hnone : s.unanswered = none := by
    by_contra hu
    obtain ⟨⟨c, k⟩, hu⟩ := Option.ne_none_iff_exists'.mp hu
    have hc := htake c
    simp [step, hleft, hphase, hu] at hc
  refine ⟨hnone, ?_⟩
  intro c
  have hc := htake c
  cases hq : s.toServer c with
  | nil => rfl
  | cons k rest => simp [step, hleft, hphase, hnone, hq] at hc

/-- The clients that have not ended wait for replies of a server that has. -/
theorem Stuck.ended {n m : ℕ} {s : System C} (h : Stuck s) (hi : Inv n m s) {c : C}
    (hleft : s.left c ≠ 0) : s.serverLeft = 0 := by
  by_contra hserver
  obtain ⟨hfree, hclient⟩ := h.client hleft
  obtain ⟨hnone, hempty⟩ := h.server hi hserver
  have hlength := congrArg List.length (hi.order c)
  have haccepted := hi.outstanding c
  simp only [System.pending, hclient, hnone, hempty c, Option.toList_none, List.filterMap_nil,
    List.append_nil, List.length_range] at hlength
  rw [hfree, Bool.toNat_true] at haccepted
  omega

/-! ## Runs without failures -/

/-- No call is rejected and no iteration is lost. -/
structure Unfailing (n : ℕ) (s : System C) : Prop where
  client : ∀ c, s.receiving c = s.outstanding c
  ended : ∀ c, s.left c = 0 → s.receiving c = false
  taken : ∀ c, (s.taken c).length + s.left c = n
  server : s.publishing = s.unanswered.isSome
  wasted : s.wasted = 0

theorem unfailing_start {D : Type} (n m : ℕ) : Unfailing n (.start n m : System D) :=
  ⟨fun _ => rfl, fun _ _ => rfl, fun _ => Nat.zero_add n, rfl, rfl⟩

theorem unfailing_step (n : ℕ) :
    PreservesUnder (step (C := C)) (fun _ e => e.fails = false) (Unfailing n) := by
  rintro s e t hok h ⟨hclient, hended, htaken, hserver, hwasted⟩
  cases step_cases h with
  | sent c hleft hphase hfree =>
      refine ⟨?_, ?_, htaken, hserver, hwasted⟩
      · intro d
        by_cases hd : d = c
        · subst hd
          simp
        · simpa [Function.update_of_ne hd] using hclient d
      · intro d hzero
        have hd : d ≠ c := fun hd => hleft (hd ▸ hzero)
        simpa [Function.update_of_ne hd] using hended d hzero
  | notSent c fails hleft hphase hwhy =>
      obtain rfl : fails = false := hok
      have hc := hclient c
      rw [hphase, hwhy.resolve_right Bool.false_ne_true] at hc
      cases hc
  | received c k rest hleft hphase hfree hq =>
      refine ⟨?_, ?_, ?_, hserver, hwasted⟩
      · intro d
        by_cases hd : d = c
        · subst hd
          simp [System.endIteration]
        · simpa [System.endIteration, Function.update_of_ne hd] using hclient d
      · intro d hzero
        by_cases hd : d = c
        · subst hd
          simp [System.endIteration]
        · simp only [System.endIteration, Function.update_of_ne hd] at hzero ⊢
          exact hended d hzero
      · intro d
        have hsum := htaken d
        by_cases hd : d = c
        · subst hd
          simp only [System.endIteration, Function.update_self, List.length_append,
            List.length_singleton]
          omega
        · simpa [System.endIteration, Function.update_of_ne hd] using hsum
  | notReceived c fails hleft hphase hwhy =>
      obtain rfl : fails = false := hok
      have hc := hclient c
      rw [hphase, hwhy.resolve_right Bool.false_ne_true] at hc
      cases hc
  | took c k rest hleft hphase hfree hq => exact ⟨hclient, hended, htaken, rfl, hwasted⟩
  | notTaken client hleft hphase hwhy =>
      have hsome : s.unanswered.isSome := by
        refine hwhy.resolve_right ?_
        rintro rfl
        cases hok
      rw [hphase, hsome] at hserver
      cases hserver
  | published c k hleft hphase hq => exact ⟨hclient, hended, htaken, rfl, hwasted⟩
  | notPublished hleft hphase => cases hok

/-! ## Counting the replies -/

section

variable [Fintype C]

/-- Every reply published has been taken or waits. -/
theorem delivered_step : Preserves (step (C := C)) fun s =>
    ∑ c, ((s.taken c).length + (s.toClient c).length) = s.published := by
  intro s e t h hs
  cases step_cases h with
  | received c k rest hleft hphase hfree hq =>
      have hsame : (fun d => (Function.update s.taken c (s.taken c ++ [k]) d).length +
          (Function.update s.toClient c rest d).length) =
          fun d => (s.taken d).length + (s.toClient d).length := by
        funext d
        by_cases hd : d = c
        · subst hd
          simp only [Function.update_self, hq, List.length_append, List.length_cons,
            List.length_nil]
          omega
        · simp [Function.update_of_ne hd]
      exact (congrArg (fun f => ∑ d, f d) hsame).trans hs
  | published c k hleft hphase hq =>
      have hupdate : (fun d => (s.taken d).length +
          (Function.update s.toClient c (s.toClient c ++ [k]) d).length) =
          Function.update (fun d => (s.taken d).length + (s.toClient d).length) c
            ((s.taken c).length + (s.toClient c).length + 1) := by
        funext d
        by_cases hd : d = c
        · subst hd
          simp [Nat.add_assoc]
        · simp [Function.update_of_ne hd]
      have hsum := sum_update (fun d => (s.taken d).length + (s.toClient d).length) c
        ((s.taken c).length + (s.toClient c).length + 1)
      rw [← hupdate] at hsum
      beta_reduce at hsum
      have hpublished : ∑ d, ((s.taken d).length +
          (Function.update s.toClient c (s.toClient c ++ [k]) d).length) = s.published + 1 := by
        omega
      exact hpublished
  | _ => exact hs

def System.calls (s : System C) : ℕ :=
  ∑ c, (2 * s.left c + (!s.receiving c).toNat) + (2 * s.serverLeft + (!s.publishing).toNat)

/-- Every call brings a loop nearer to its end. -/
theorem calls_lt {s t : System C} {e : Event C} (h : step s e = some t) : t.calls < s.calls := by
  cases step_cases h with
  | sent c hleft hphase hfree => exact Nat.add_lt_add_right (sum_calls_first s.left hphase) _
  | notSent c fails hleft hphase hwhy =>
      exact Nat.add_lt_add_right (sum_calls_first s.left hphase) _
  | received c k rest hleft hphase hfree hq =>
      exact Nat.add_lt_add_right (sum_calls_second hleft hphase) _
  | notReceived c fails hleft hphase hwhy =>
      exact Nat.add_lt_add_right (sum_calls_second hleft hphase) _
  | took c k rest hleft hphase hfree hq =>
      apply Nat.add_lt_add_left
      simp [hphase]
  | notTaken client hleft hphase hwhy =>
      apply Nat.add_lt_add_left
      simp only [System.waste, System.endServerIteration, hphase, Bool.not_false, Bool.toNat_true]
      omega
  | published c k hleft hphase hq =>
      apply Nat.add_lt_add_left
      simp only [System.endServerIteration, hphase, Bool.not_false, Bool.not_true,
        Bool.toNat_true, Bool.toNat_false]
      omega
  | notPublished hleft hphase =>
      apply Nat.add_lt_add_left
      simp only [System.waste, System.endServerIteration, hphase, Bool.not_false, Bool.not_true,
        Bool.toNat_true, Bool.toNat_false]
      omega

/-! ## What a test run comes to -/

/-- Whatever fails: a client takes the replies to its requests in the order
in which they were accepted, to each at most once, and has at most one
outstanding; each of the server's iterations has published a reply or was
wasted; and when no call can return, a client that has not ended waits for
a reply that cannot come, since the server has ended. -/
theorem replies_taken {n m : ℕ} {es : List (Event C)} {s : System C}
    (hr : run step (.start n m) es = some s) :
    (∀ c, s.taken c <+: List.range (s.accepted c) ∧
      s.accepted c = (s.taken c).length + (s.outstanding c).toNat) ∧
    s.serverLeft + s.published + s.wasted = m ∧
    ∑ c, ((s.taken c).length + (s.toClient c).length) = s.published ∧
    (Stuck s → ∀ c, s.left c ≠ 0 →
      s.outstanding c = true ∧ s.toClient c = [] ∧ s.serverLeft = 0) := by
  have hi := (inv_step n m).run hr (inv_start n m)
  have hsum := delivered_step.run hr (by simp [System.start])
  refine ⟨?_, hi.server, hsum, ?_⟩
  · intro c
    refine ⟨?_, hi.outstanding c⟩
    rw [← hi.order c, List.append_assoc, List.append_assoc]
    exact List.prefix_append _ _
  · intro hstuck c hleft
    obtain ⟨hfree, hclient⟩ := hstuck.client hleft
    exact ⟨hfree, hclient, hstuck.ended hi hleft⟩

/-- One client's request is answered. -/
def oneReply : List (Event Unit) :=
  [.send () false, .take (some ()), .publish false, .receive () false]

theorem replies_taken_oneReply : ∃ s, run step (.start 1 1) oneReply = some s ∧
    s.taken () = [0] ∧ s.taken () <+: List.range (s.accepted ()) := by
  obtain ⟨s, hr, htaken⟩ : ∃ s, run step (.start 1 1) oneReply = some s ∧ s.taken () = [0] :=
    ⟨_, rfl, rfl⟩
  exact ⟨s, hr, htaken, ((replies_taken hr).1 ()).1⟩

/-- If no call fails, no run has more calls than the loops can make, so that
every run comes to a point where none can return; by then as many replies
have been taken as the server has iterations, or as the clients have
together if these are fewer. So all clients end exactly when the server has
an iteration for each of theirs. -/
theorem replies_count {n m : ℕ} {es : List (Event C)} {s : System C}
    (hr : run step (.start n m) es = some s) (hok : ∀ e ∈ es, e.fails = false) :
    es.length ≤ Fintype.card C * (2 * n + 1) + (2 * m + 1) ∧
    (∃ fs t, (∀ e ∈ fs, e.fails = false) ∧ run step s fs = some t ∧ Stuck t) ∧
    (Stuck s → ∑ c, (s.taken c).length = min m (Fintype.card C * n) ∧
      ((∀ c, s.left c = 0) ↔ Fintype.card C * n ≤ m)) := by
  have hi := (inv_step n m).run hr (inv_start n m)
  have hsum := delivered_step.run hr (by simp [System.start])
  have hu : Unfailing n s := (unfailing_step n).run
    (meets_of_forall_mem (fun e he _ => hok e he) _) hr (unfailing_start n m)
  have hdecreases : Decreases (step (C := C)) (fun _ e => e.fails = false) (fun _ => True)
      System.calls := fun u e v _ _ h => calls_lt h
  refine ⟨?_, ?_, ?_⟩
  · have hlength := hdecreases.length_add_le (fun _ _ _ _ _ _ => trivial) trivial
      (meets_of_forall_mem (fun e he _ => hok e he) _) hr
    have hcalls : (System.start n m : System C).calls =
        Fintype.card C * (2 * n + 1) + (2 * m + 1) := by
      simp [System.calls, System.start]
    omega
  · obtain ⟨fs, t, hm, hfs, hend⟩ :=
      hdecreases.exists_exhausted (fun _ _ _ _ _ _ => trivial) (s := s) trivial
    exact ⟨fs, t, forall_mem_of_meets hm hfs, hfs, hend⟩
  · intro hstuck
    have hempty (c : C) : s.toClient c = [] := by
      by_cases hleft : s.left c = 0
      · exact (hi.idle (by rw [← hu.client c, hu.ended c hleft])).1
      · exact (hstuck.client hleft).2
    have htotal : ∑ c, (s.taken c).length = s.published := by simpa [hempty] using hsum
    have hall : ∑ c, (s.taken c).length + ∑ c, s.left c = Fintype.card C * n := by
      rw [← Finset.sum_add_distrib, Finset.sum_congr rfl fun c _ => hu.taken c]
      simp
    have hserver := hi.server
    rw [hu.wasted] at hserver
    by_cases hend : ∀ c, s.left c = 0
    · have hzero : ∑ c, s.left c = 0 := Finset.sum_eq_zero fun c _ => hend c
      refine ⟨by omega, fun _ => by omega, fun _ => hend⟩
    · obtain ⟨c, hleft⟩ := not_forall.mp hend
      have hdone := hstuck.ended hi hleft
      have hpos : s.left c ≤ ∑ d, s.left d :=
        Finset.single_le_sum (fun d _ => Nat.zero_le _) (Finset.mem_univ c)
      refine ⟨by omega, fun h => (hend h).elim, fun h => by omega⟩

/-- Two clients of the test program do not both end. -/
theorem replies_count_two : ∃ fs t,
    run step (.start iterationsNum iterationsNum : System Bool) fs = some t ∧ Stuck t ∧
      ∑ c, (t.taken c).length = 100 ∧ ¬ ∀ c, t.left c = 0 := by
  have hstart : run step (.start iterationsNum iterationsNum : System Bool) [] = some _ := rfl
  obtain ⟨-, ⟨fs, t, hok, hr, hstuck⟩, -⟩ := replies_count hstart (by simp)
  obtain ⟨hcount, hended⟩ := (replies_count hr hok).2.2 hstuck
  refine ⟨fs, t, hr, hstuck, by simpa [iterationsNum] using hcount, ?_⟩
  rw [hended]
  decide

end

end Direct

end ZeromqAgent
