import ZeromqAgent.Theory.Storage
import Mathlib.Algebra.Ring.Int.Defs
import Mathlib.Algebra.Ring.Nat

/-!
# Messages and status values

The types of `general_api.h`. An `int` has 32 bits and a `size_t` 64. The
only class of messages that holds data is `SendMessage`; its storage is a
block of the heap, at address 0 for a null pointer.
-/

namespace ZeromqAgent

open Storage

abbrev Bytes := List UInt8

abbrev Heap := Store UInt8

abbrev Addr := ℕ

/-- The `int` that a `size_t` converts to. -/
def toInt (n : ℕ) : ℤ := Int.bmod n (2 ^ 32)

/-- The `size_t` that an `int` converts to. -/
def toSize (n : ℤ) : ℕ := (n % 2 ^ 64).toNat

theorem toInt_natCast {n : ℕ} (h : n < 2 ^ 31) : toInt n = n := by
  unfold toInt
  apply Int.bmod_eq_of_le
  · omega
  · omega

theorem toInt_lt (n : ℕ) : toInt n < 2 ^ 31 := Int.bmod_lt (by decide)

theorem toInt_eq_natCast {n : ℕ} : toInt n = n ↔ n < 2 ^ 31 := by
  constructor
  · intro h
    have hlt := toInt_lt n
    omega
  · exact toInt_natCast

theorem toSize_natCast {n : ℕ} (h : n < 2 ^ 64) : toSize n = n := by
  unfold toSize
  rw [Int.emod_eq_of_lt (by omega) (by omega)]
  exact Int.toNat_natCast n

inductive ErrorType where
  | ok
  | notOk
  deriving DecidableEq

inductive SocketType where
  | request
  | reply
  | publish
  | subscribe
  deriving DecidableEq

structure Status where
  error : ErrorType
  bytesSend : ℤ
  errorStr : String
  deriving DecidableEq

def Status.init : Status := ⟨.ok, 0, ""⟩

structure SendMessage where
  size : ℤ
  data : Addr
  isAllocated : Bool
  deriving DecidableEq

namespace SendMessage

/-- The constructor from a string, at an address and with a last byte that
`new` leaves in the block. It throws or overflows where it has no result. -/
def ofString (heap : Heap) (a : Addr) (last : UInt8) (message : Bytes) :
    Option (SendMessage × Heap) :=
  let size := toInt message.length
  if 0 ≤ size ∧ size + 1 < 2 ^ 31 then
    some (⟨size, a, true⟩, put heap a (message.take size.toNat ++ [last]))
  else none

theorem ofString_eq_some {heap : Heap} {a : Addr} {last : UInt8} {message : Bytes}
    {p : SendMessage × Heap} :
    ofString heap a last message = some p ↔
      (0 ≤ toInt message.length ∧ toInt message.length + 1 < 2 ^ 31) ∧
        p = (⟨toInt message.length, a, true⟩,
          put heap a (message.take (toInt message.length).toNat ++ [last])) := by
  unfold ofString
  dsimp only
  generalize toInt message.length = size
  rw [Option.ite_none_right_eq_some, Option.some_inj]
  exact and_congr_right fun _ => eq_comm

theorem exists_put_of_ofString {heap : Heap} {a : Addr} {last : UInt8} {message : Bytes}
    {p : SendMessage × Heap} (h : ofString heap a last message = some p) :
    ∃ block, p.2 = put heap a block :=
  ⟨_, congrArg Prod.snd (ofString_eq_some.mp h).2⟩

/-- A string whose length fits is copied whole. -/
theorem bytes_of_ofString {heap heap' : Heap} {a : Addr} {last : UInt8} {message : Bytes}
    {m : SendMessage} (h : ofString heap a last message = some (m, heap'))
    (hlen : message.length < 2 ^ 31 - 1) :
    m.size = message.length ∧ m.data = a ∧ read heap' m.data (toSize m.size) = some message := by
  obtain ⟨-, heq⟩ := ofString_eq_some.mp h
  rw [toInt_natCast (by omega)] at heq
  obtain ⟨rfl, rfl⟩ := Prod.mk.inj heq
  refine ⟨rfl, rfl, ?_⟩
  have hsize : toSize message.length = message.length := toSize_natCast (by omega)
  simp [Storage.read, put, hsize]

/-- A string whose length does not fit gets another size, if anything. -/
theorem length_lt_of_ofString {heap heap' : Heap} {a : Addr} {last : UInt8} {message : Bytes}
    {m : SendMessage} (h : ofString heap a last message = some (m, heap'))
    (hsize : m.size = message.length) : message.length < 2 ^ 31 - 1 := by
  obtain ⟨⟨-, hlt⟩, heq⟩ := ofString_eq_some.mp h
  obtain ⟨hm, -⟩ := Prod.mk.inj heq
  have hint : m.size = toInt message.length := by rw [hm]
  omega

def ofPtr (start : Addr) (size : ℤ) : SendMessage := ⟨size, start, false⟩

/-- The default constructor leaves `m_is_allocated` as it finds it. -/
def default (junk : Bool) : SendMessage := ⟨0, 0, junk⟩

def destroy (m : SendMessage) (heap : Heap) : Heap :=
  if m.isAllocated then release heap m.data else heap

/-- The bytes between `get_data()` and `get_data() + get_size()`. -/
def bytes (m : SendMessage) (heap : Heap) : Option Bytes := read heap m.data (toSize m.size)

/-- The copy constructor; it too leaves `m_is_allocated` as it finds it. -/
def copy (m : SendMessage) (junk : Bool) : SendMessage := ⟨m.size, m.data, junk⟩

/-- The move constructor. The source keeps its members: `std::move` of a
pointer or an `int` copies it. -/
def move (m : SendMessage) (junk : Bool) : SendMessage := ⟨m.size, m.data, junk⟩

def setData (m : SendMessage) (data : Addr) : SendMessage := { m with data := data }

def setSize (m : SendMessage) (size : ℤ) : SendMessage := { m with size := size }

/-- `m_is_allocated` is not exchanged. -/
def swap (first second : SendMessage) : SendMessage × SendMessage :=
  ({ first with data := second.data, size := second.size },
    { second with data := first.data, size := first.size })

/-- What `delete[]` is called with; for a null pointer it does nothing. -/
def released (m : SendMessage) : List Addr := if m.isAllocated ∧ m.data ≠ 0 then [m.data] else []

end SendMessage

/-- A value of the base class itself holds no data. -/
inductive IMessage where
  | base
  | send (m : SendMessage)
  deriving DecidableEq

namespace IMessage

def getData : IMessage → Addr
  | base => 0
  | send m => m.data

def getSize : IMessage → ℤ
  | base => 0
  | send m => m.size

/-- The result type is the base class, so that `return *this` slices. -/
def clone (_ : IMessage) : IMessage := base

def destroy : IMessage → Heap → Heap
  | base, heap => heap
  | send m, heap => m.destroy heap

def released : IMessage → List Addr
  | base => []
  | send m => m.released

/-- The bytes that a reader of the message finds. -/
def bytes (m : IMessage) (heap : Heap) : Option Bytes := read heap m.getData (toSize m.getSize)

end IMessage

end ZeromqAgent
