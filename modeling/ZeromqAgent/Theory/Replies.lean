import Mathlib.Data.List.Basic

/-!
# The other side of a request

A replier hands out the requests that came to it in their order, and the
next one only when the last has been answered. What came, was handed out
and was answered is history.
-/

namespace Replies

variable {τ : Type*}

structure Desk (τ : Type*) where
  inbound : List τ
  unanswered : Option τ
  arrived : List τ
  received : List τ
  answered : List τ

namespace Desk

def start : Desk τ := ⟨[], none, [], [], []⟩

def arrive (s : Desk τ) (t : τ) : Desk τ :=
  { s with inbound := s.inbound ++ [t], arrived := s.arrived ++ [t] }

def receive (s : Desk τ) : Option (τ × Desk τ) :=
  match s.unanswered, s.inbound with
  | none, t :: rest =>
      some (t, { s with inbound := rest, unanswered := some t, received := s.received ++ [t] })
  | _, _ => none

def reply (s : Desk τ) : Desk τ :=
  { s with unanswered := none, answered := s.answered ++ s.unanswered.toList }

/-- The requests that came are those handed out and those that wait, and
all handed out but the last have been answered. -/
structure Accounts (s : Desk τ) : Prop where
  arrived : s.arrived = s.received ++ s.inbound
  received : s.received = s.answered ++ s.unanswered.toList

theorem accounts_start : (start : Desk τ).Accounts := ⟨rfl, rfl⟩

theorem Accounts.arrive {s : Desk τ} (h : s.Accounts) (t : τ) : (s.arrive t).Accounts where
  arrived := by
    have harrived := h.arrived
    simp [Desk.arrive, harrived]
  received := h.received

theorem receive_eq_some {s s' : Desk τ} {t : τ} (h : s.receive = some (t, s')) :
    s.unanswered = none ∧ ∃ rest, s.inbound = t :: rest ∧
      s' = { s with inbound := rest, unanswered := some t, received := s.received ++ [t] } := by
  cases hu : s.unanswered with
  | some u => simp [receive, hu] at h
  | none =>
      cases hin : s.inbound with
      | nil => simp [receive, hu, hin] at h
      | cons t' rest =>
          simp only [receive, hu, hin, Option.some.injEq, Prod.mk.injEq] at h
          obtain ⟨rfl, rfl⟩ := h
          exact ⟨rfl, rest, rfl, rfl⟩

theorem Accounts.receive {s s' : Desk τ} {t : τ} (h : s.Accounts)
    (hr : s.receive = some (t, s')) : s'.Accounts := by
  obtain ⟨hu, rest, hin, rfl⟩ := receive_eq_some hr
  have harrived := h.arrived
  have hreceived := h.received
  rw [hu, Option.toList_none, List.append_nil] at hreceived
  exact ⟨by simp [harrived, hin], by simp [hreceived]⟩

theorem Accounts.reply {s : Desk τ} (h : s.Accounts) : s.reply.Accounts where
  arrived := h.arrived
  received := by
    have hreceived := h.received
    simpa [Desk.reply] using hreceived

end Desk

end Replies
