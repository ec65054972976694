import ZeromqAgent.Session

/-!
# Lengths

The length of a string is a `size_t` that becomes the `int` of a message,
and a `size_t` again when the message is sent; the length of a received
message becomes an `int`, and a `size_t` for the string that is printed of
it. The `int` of a string also has to leave room for one more.
-/

namespace ZeromqAgent

open Storage

variable (strerror : Errno → String)

/-- In the constructor from a string `m_size + 1` is an `int`, and `new` gets
at least the bytes that `memset` and `memcpy` write. -/
def SendMessage.Allocates (message : Bytes) : Prop :=
  let size := toInt message.length
  size + 1 < 2 ^ 31 ∧ 0 ≤ size + 1 ∧ toSize size ≤ toSize (size + 1)

/-- A successful send passes the length of the string to `zmq_msg_init_data`
or `zmq_send`, on either thread. -/
def Passes (c : Impl) (heap : Heap) (m : SendMessage) (message : Bytes) : Prop :=
  ∀ flags,
    (ClientImpl.sendWorker strerror c m flags ⟨none, none⟩).2.queue =
      c.queue ++ [.borrowed m.data message.length] ∧
    (ServerImpl.publishWorker strerror c heap m flags none).2.queue =
      c.queue ++ [.copied message]

/-- The string is built, and sent, with its own length and bytes. -/
def Survives (c : Impl) (heap : Heap) (a : Addr) (last : UInt8) (message : Bytes) : Prop :=
  SendMessage.Allocates message ∧
    ∃ m heap', SendMessage.ofString heap a last message = some (m, heap') ∧
      m.size = message.length ∧ m.bytes heap' = some message ∧ Passes strerror c heap' m message

theorem toSize_le_succ {n : ℤ} (h : n < 2 ^ 31) (hnonneg : 0 ≤ n + 1) :
    toSize n ≤ toSize (n + 1) ↔ 0 ≤ n := by
  unfold toSize
  omega

/-- The constructor has a result where the allocation is large enough. -/
theorem allocates_iff (heap : Heap) (a : Addr) (last : UInt8) (message : Bytes) :
    SendMessage.Allocates message ↔ (SendMessage.ofString heap a last message).isSome := by
  unfold SendMessage.Allocates SendMessage.ofString
  dsimp only
  have hlt := toInt_lt message.length
  constructor
  · rintro ⟨hroom, hnonneg, hle⟩
    have hsize := (toSize_le_succ hlt hnonneg).mp hle
    rw [if_pos ⟨hsize, hroom⟩]
    rfl
  · intro h
    split at h
    · next hsize =>
        obtain ⟨hnonneg, hroom⟩ := hsize
        have hnext : 0 ≤ toInt message.length + 1 := by omega
        exact ⟨hroom, hnext, (toSize_le_succ hlt hnext).mpr hnonneg⟩
    · cases h

theorem passes_of_size {c : Impl} {heap : Heap} {m : SendMessage} {message : Bytes}
    (hsize : toSize m.size = message.length) (hbytes : m.bytes heap = some message) :
    Passes strerror c heap m message := by
  intro flags
  rw [sendWorker_queue, publishWorker_queue, hsize, hbytes]
  exact ⟨rfl, rfl⟩

theorem survives_iff (c : Impl) (heap : Heap) (a : Addr) (last : UInt8) (message : Bytes) :
    Survives strerror c heap a last message ↔ message.length < 2 ^ 31 - 1 := by
  constructor
  · rintro ⟨-, m, heap', h, hsize, -⟩
    exact SendMessage.length_lt_of_ofString h hsize
  · intro hlen
    have hsome : (SendMessage.ofString heap a last message).isSome := by
      unfold SendMessage.ofString
      dsimp only
      rw [toInt_natCast (by omega), if_pos (by omega)]
      rfl
    refine ⟨(allocates_iff heap a last message).mpr hsome, ?_⟩
    obtain ⟨⟨m, heap'⟩, h⟩ := Option.isSome_iff_exists.mp hsome
    obtain ⟨hsize, -, hbytes⟩ := SendMessage.bytes_of_ofString h hlen
    have hpassed : toSize m.size = message.length := by
      rw [hsize]
      exact toSize_natCast (by omega)
    exact ⟨m, heap', h, hsize, hbytes, passes_of_size strerror hpassed hbytes⟩

/-- A received message is returned, with its own length as the size that is
stored and as the length of the string that is built. -/
def Arrives (role : Role) (c : Impl) (heap : Heap) (a : Addr) (bytes : Bytes) : Prop :=
  ∃ m, (role.receive strerror c heap ⟨none, .ok (a, bytes)⟩).1 = .ok (some m) ∧
    m.size = bytes.length ∧ strMessage m.size = .ok bytes.length

theorem strMessage_natCast {n : ℕ} (h : n < 2 ^ 31) : strMessage n = .ok n := by
  have hlength := strMessage_toInt n
  rwa [toInt_natCast h, Nat.mod_eq_of_lt (by omega), if_pos h] at hlength

theorem arrives_iff (role : Role) {c : Impl} (htype : role = .server → c.type ≠ .publish)
    (heap : Heap) (a : Addr) (bytes : Bytes) :
    Arrives strerror role c heap a bytes ↔ bytes.length < 2 ^ 31 := by
  have h := received strerror role c heap ⟨none, .ok (a, bytes)⟩
  unfold Arrives
  generalize role.receive strerror c heap ⟨none, .ok (a, bytes)⟩ = p at h
  cases h with
  | publisher r hrole hpublish => exact (htype hrole hpublish).elim
  | thrown data bytes htype hlong =>
      refine iff_of_false ?_ fun hlt => hlong ?_
      · rintro ⟨m, hm, -⟩
        cases hm
      · rwa [Printable, Nat.mod_eq_of_lt (by omega)]
  | returned data bytes htype hshort =>
      constructor
      · rintro ⟨m, hm, hsize, -⟩
        obtain rfl := Option.some.inj (Except.ok.inj hm)
        rw [Impl.setMessage_size] at hsize
        exact toInt_eq_natCast.mp hsize
      · intro hlt
        refine ⟨_, rfl, ?_⟩
        rw [Impl.setMessage_size, toInt_natCast hlt]
        exact ⟨rfl, strMessage_natCast hlt⟩

/-- Where the `int` is negative the string cannot be built, and nothing is
returned. -/
theorem receive_throws_iff (role : Role) {c : Impl} (htype : role = .server → c.type ≠ .publish)
    (heap : Heap) (a : Addr) (bytes : Bytes) :
    (role.receive strerror c heap ⟨none, .ok (a, bytes)⟩).1 = .error .lengthError ↔
      2 ^ 31 ≤ bytes.length % 2 ^ 32 := by
  have h := received strerror role c heap ⟨none, .ok (a, bytes)⟩
  generalize role.receive strerror c heap ⟨none, .ok (a, bytes)⟩ = p at h
  cases h with
  | publisher r hrole hpublish => exact (htype hrole hpublish).elim
  | thrown data bytes htype hlong => exact iff_of_true rfl (Nat.not_lt.mp hlong)
  | returned data bytes htype hshort => exact iff_of_false nofun (Nat.not_le.mpr hshort)

end ZeromqAgent
