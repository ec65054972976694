import ZeromqAgent.GeneralApi
import ZeromqAgent.Theory.Handles

/-!
# Programs on message objects

What a program can do with objects of the message classes: construct them
in every way, copy, move, clone, assign and swap them, set their members
and destroy them, in any order. `new` chooses any free address, and a
member that a constructor leaves out gets any value. Beside each object
stands the string that it would hold if messages were values. An assignment
is the last operation of a program: `operator=` flows off its end.
-/

namespace ZeromqAgent.Messages

open Transition Handles

structure Object where
  message : IMessage
  value : Option Bytes
  deriving DecidableEq

/-- `trace` has the calls of `new[]` in the constructor from a string and
those of `delete[]` in the destructor. Nothing can be said of a program
once it is `undefined`. -/
structure State where
  heap : Heap
  objects : List Object
  trace : List (Event Addr)
  undefined : Bool

inductive Construction where
  | string (a : Addr) (last : UInt8) (message : Bytes)
  | pointer (start : Addr) (size : ℤ)
  | default (junk : Bool)
  | copy (i : ℕ) (junk : Bool)
  | move (i : ℕ) (junk : Bool)

inductive Operation where
  | construct (k : Construction)
  | clone (i : ℕ)
  | assign (i : ℕ) (k : Construction)
  | swap (i j : ℕ)
  | setData (i : ℕ) (data : Addr)
  | setSize (i : ℕ) (size : ℤ)
  | destroy (i : ℕ)

/-- The storage that a constructor gets from `new[]`. -/
def Construction.acquired : Construction → List Addr
  | string a _ _ => [a]
  | _ => []

/-- The string is one that the constructor copies whole. -/
def Construction.Short : Construction → Prop
  | .string _ _ message => message.length < 2 ^ 31 - 1
  | _ => True

instance decidableShort : ∀ k : Construction, Decidable k.Short
  | .string _ _ message => inferInstanceAs (Decidable (message.length < 2 ^ 31 - 1))
  | .pointer _ _ | .default _ | .copy _ _ | .move _ _ => inferInstanceAs (Decidable True)

namespace State

/-- Before the first operation, with nothing at the null pointer. -/
def start (heap : Heap) : State := ⟨Storage.release heap 0, [], [], false⟩

/-- A `SendMessage` among the objects, with its value. -/
def send? (s : State) (i : ℕ) : Option (SendMessage × Option Bytes) :=
  s.objects[i]?.bind fun o =>
    match o.message with
    | .base => none
    | .send m => some (m, o.value)

/-- The object that a constructor makes, with its value and the heap after it. -/
def build (s : State) : Construction → Option (SendMessage × Option Bytes × Heap)
  | .string a last message =>
      if a ≠ 0 ∧ s.heap a = none then
        (SendMessage.ofString s.heap a last message).map fun p => (p.1, some message, p.2)
      else none
  | .pointer start size => some (.ofPtr start size, none, s.heap)
  | .default junk => some (.default junk, none, s.heap)
  | .copy i junk => (s.send? i).map fun p => (p.1.copy junk, p.2, s.heap)
  | .move i junk => (s.send? i).map fun p => (p.1.move junk, p.2, s.heap)

def construct (s : State) (k : Construction) : Option State :=
  (s.build k).map fun p =>
    { s with
      heap := p.2.2
      objects := s.objects ++ [⟨.send p.1, p.2.1⟩]
      trace := s.trace ++ k.acquired.map .acquire }

def set (s : State) (i : ℕ) (m : SendMessage) (value : Option Bytes) : State :=
  { s with objects := s.objects.set i ⟨.send m, value⟩ }

def swap (s : State) (i j : ℕ) : Option State :=
  (s.send? i).bind fun p => (s.send? j).map fun q =>
    (s.set i (p.1.swap q.1).1 q.2).set j (p.1.swap q.1).2 p.2

def destroy (s : State) (i : ℕ) : Option State :=
  s.objects[i]?.map fun o =>
    { s with
      heap := o.message.destroy s.heap
      objects := s.objects.eraseIdx i
      trace := s.trace ++ o.message.released.map .release }

/-- `operator=` swaps its parameter with the object and then ends without
the `return` that its result type asks for, which is undefined behaviour. -/
def assign (s : State) (i : ℕ) (k : Construction) : Option State :=
  (s.send? i).bind fun _ => (s.construct k).bind fun t =>
    (t.swap i s.objects.length).map fun u => { u with undefined := true }

def perform (s : State) : Operation → Option State
  | .construct k => s.construct k
  | .clone i =>
      s.objects[i]?.map fun o => { s with objects := s.objects ++ [⟨o.message.clone, o.value⟩] }
  | .assign i k => s.assign i k
  | .swap i j => s.swap i j
  | .setData i data => (s.send? i).map fun p => s.set i (p.1.setData data) none
  | .setSize i size => (s.send? i).map fun p => s.set i (p.1.setSize size) none
  | .destroy i => s.destroy i

end State

def step (s : State) (op : Operation) : Option State :=
  if s.undefined then none else s.perform op

/-! ## What an operation does to the objects -/

theorem send?_eq_some {s : State} {i : ℕ} {m : SendMessage} {v : Option Bytes} :
    s.send? i = some (m, v) ↔ s.objects[i]? = some ⟨.send m, v⟩ := by
  unfold State.send?
  rcases s.objects[i]? with _ | ⟨_ | n, w⟩
  · simp
  · simp
  · simp

theorem swap_cases {s t : State} {i j : ℕ} (h : s.swap i j = some t) :
    ∃ m v n w, s.objects[i]? = some ⟨.send m, v⟩ ∧ s.objects[j]? = some ⟨.send n, w⟩ ∧
      t = (s.set i (m.swap n).1 w).set j (m.swap n).2 v := by
  obtain ⟨⟨m, v⟩, hi, h⟩ := Option.bind_eq_some_iff.mp h
  obtain ⟨⟨n, w⟩, hj, rfl⟩ := Option.map_eq_some_iff.mp h
  exact ⟨m, v, n, w, send?_eq_some.mp hi, send?_eq_some.mp hj, rfl⟩

theorem step_eq_some {s t : State} {op : Operation} :
    step s op = some t ↔ s.undefined = false ∧ s.perform op = some t := by
  unfold step
  cases s.undefined with
  | false => simp
  | true => simp

/-- An operation is an assignment, which is undefined, or it is defined. -/
theorem step_cases {s t : State} {op : Operation} (h : step s op = some t) :
    (∃ i k, op = .assign i k) ∧ t.undefined = true ∨
      (∀ i k, op ≠ .assign i k) ∧ t.undefined = false ∧ s.perform op = some t := by
  obtain ⟨hdefined, h⟩ := step_eq_some.mp h
  cases op with
  | assign i k =>
      obtain ⟨p, -, h⟩ := Option.bind_eq_some_iff.mp h
      obtain ⟨u, -, h⟩ := Option.bind_eq_some_iff.mp h
      obtain ⟨v, -, rfl⟩ := Option.map_eq_some_iff.mp h
      exact .inl ⟨⟨i, k, rfl⟩, rfl⟩
  | swap i j =>
      refine .inr ⟨nofun, ?_, h⟩
      obtain ⟨m, v, n, w, -, -, rfl⟩ := swap_cases h
      exact hdefined
  | construct k | clone i | setData i data | setSize i size | destroy i =>
      refine .inr ⟨nofun, ?_, h⟩
      obtain ⟨p, -, rfl⟩ := Option.map_eq_some_iff.mp h
      exact hdefined

end ZeromqAgent.Messages
