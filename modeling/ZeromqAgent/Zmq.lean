import ZeromqAgent.GeneralApi
import ZeromqAgent.Theory.Handles

/-!
# The libzmq calls

What the library keeps of a context: its open sockets with their
endpoints, the messages accepted and not yet transmitted, and the trace of
the calls that pass or return a handle. The outcome of a call that may
fail is an argument, with the `errno` of a failure. A new handle is one
that the context never returned before.
-/

namespace ZeromqAgent

inductive Errno where
  | eagain
  | eintr
  | eaddrinuse
  | other (code : ℕ)
  deriving DecidableEq

/-- A `void*` for a socket; `NULL` is 0. -/
abbrev Handle := ℕ

inductive SocketKind where
  | req
  | rep
  | pub
  | sub
  | router
  | dealer
  | xpub
  | xsub
  deriving DecidableEq

inductive Attachment where
  | bound (url : String)
  | connected (url : String)
  deriving DecidableEq

structure Socket where
  kind : SocketKind
  endpoints : List Attachment
  deriving DecidableEq

/-- The flags of a send or a receive; `ZMQ_NOBLOCK` is `ZMQ_DONTWAIT`. -/
inductive Flags where
  | none
  | dontwait
  | sndmore
  deriving DecidableEq

/-- A `zmq_poll` of several items and a `zmq_proxy` are a call for each of
their sockets. -/
inductive Call where
  | socket (h : Handle)
  | bind (h : Handle)
  | connect (h : Handle)
  | setsockopt (h : Handle)
  | send (h : Handle) (flags : Flags)
  | msgSend (h : Handle) (flags : Flags)
  | msgRecv (h : Handle) (flags : Flags)
  | poll (h : Handle)
  | proxy (h : Handle)
  | close (h : Handle)
  | ctxDestroy
  deriving DecidableEq

def Call.event : Call → Handles.Event Handle
  | .socket h => .acquire h
  | .bind h | .connect h | .setsockopt h | .poll h | .proxy h => .use h
  | .send h _ | .msgSend h _ | .msgRecv h _ => .use h
  | .close h => .release h
  | .ctxDestroy => .finish

/-- A queued message: `zmq_send` copies the bytes, `zmq_msg_init_data`
without a free function keeps the caller's pointer and length. -/
inductive Entry where
  | copied (bytes : Bytes)
  | borrowed (a : Addr) (size : ℕ)
  deriving DecidableEq

/-- An empty message can be anywhere, also at a null pointer. -/
def Entry.content (heap : Heap) : Entry → Option Bytes
  | .copied bytes => some bytes
  | .borrowed a size => if size = 0 then some [] else Storage.read heap a size

def Entry.refersTo (a : Addr) : Entry → Bool
  | .copied _ => false
  | .borrowed b size => b = a ∧ size ≠ 0

structure Context where
  created : ℕ
  sockets : Handle → Option Socket
  outbound : Handle → List Entry
  calls : List Call
  fresh : ∀ h, created < h → sockets h = none

/-- The handles that `n` calls of `zmq_socket` return, the latest first. -/
def handlesTo (n : ℕ) : List Handle := (List.range' 1 n).reverse

theorem handlesTo_succ (n : ℕ) : handlesTo (n + 1) = (n + 1) :: handlesTo n := by
  simp [handlesTo, List.range'_1_concat, Nat.add_comm]

@[simp] theorem handlesTo_length (n : ℕ) : (handlesTo n).length = n := by simp [handlesTo]

theorem Entry.content_of_read {heap : Heap} {a : Addr} {size : ℕ} {bytes : Bytes}
    (h : Storage.read heap a size = some bytes) :
    (Entry.borrowed a size).content heap = some bytes := by
  by_cases hsize : size = 0
  · subst hsize
    obtain ⟨block, -, hread⟩ := Option.bind_eq_some_iff.mp h
    simpa [Entry.content] using hread
  · simpa [Entry.content, hsize] using h

/-- A queued message does not see what happens at addresses it does not refer to. -/
theorem Entry.content_update {heap : Heap} {a : Addr} {entry : Entry}
    (h : entry.refersTo a = false) (block : Option Bytes) :
    entry.content (Function.update heap a block) = entry.content heap := by
  cases entry with
  | copied bytes => rfl
  | borrowed b size =>
      by_cases hsize : size = 0
      · simp [content, hsize]
      · have hne : b ≠ a := by simpa [refersTo, hsize] using h
        simp [content, hsize, Storage.read_congr (Function.update_of_ne hne _ _)]

namespace Context

def new : Context where
  created := 0
  sockets := fun _ => none
  outbound := fun _ => []
  calls := []
  fresh := fun _ _ => rfl

def call (ctx : Context) (c : Call) : Context := { ctx with calls := ctx.calls ++ [c] }

def socket (ctx : Context) (kind : SocketKind) : Option Errno → Except Errno Handle × Context
  | some e => (.error e, ctx)
  | none =>
      let h := ctx.created + 1
      (.ok h, { ctx with
        created := h
        sockets := Function.update ctx.sockets h (some ⟨kind, []⟩)
        calls := ctx.calls ++ [.socket h]
        fresh := fun h' hlt => by
          rw [Function.update_of_ne (Nat.ne_of_gt hlt)]
          exact ctx.fresh h' (Nat.lt_of_succ_lt hlt) })

def attach (ctx : Context) (h : Handle) (a : Attachment) : Context :=
  { ctx with
    sockets := Function.update ctx.sockets h
      ((ctx.sockets h).map fun s => { s with endpoints := s.endpoints ++ [a] })
    fresh := fun h' hlt => by
      by_cases hh : h' = h
      · subst hh
        simp [ctx.fresh h' hlt]
      · rw [Function.update_of_ne hh]
        exact ctx.fresh h' hlt }

def inUse (ctx : Context) (url : String) : Bool :=
  (List.range (ctx.created + 1)).any fun h =>
    (ctx.sockets h).any fun s => s.endpoints.contains (.bound url)

def connect (ctx : Context) (h : Handle) (url : String) (r : Option Errno) :
    Option Errno × Context :=
  let ctx := ctx.call (.connect h)
  match r with
  | some e => (some e, ctx)
  | none => (none, ctx.attach h (.connected url))

/-- An endpoint that is in use cannot be bound again. -/
def bind (ctx : Context) (h : Handle) (url : String) (r : Option Errno) : Option Errno × Context :=
  let ctx := ctx.call (.bind h)
  match if ctx.inUse url then some .eaddrinuse else r with
  | some e => (some e, ctx)
  | none => (none, ctx.attach h (.bound url))

def accept (ctx : Context) (h : Handle) (entry : Entry) : Context :=
  { ctx with outbound := Function.update ctx.outbound h (ctx.outbound h ++ [entry]) }

def transmit (ctx : Context) (h : Handle) : Context :=
  { ctx with outbound := Function.update ctx.outbound h (ctx.outbound h).tail }

def close (ctx : Context) (h : Handle) : Context :=
  { ctx with
    sockets := Function.update ctx.sockets h none
    calls := ctx.calls ++ [.close h]
    fresh := fun h' hlt => by
      by_cases hh : h' = h
      · subst hh
        simp
      · rw [Function.update_of_ne hh]
        exact ctx.fresh h' hlt }

def destroy (ctx : Context) : Context := ctx.call .ctxDestroy

/-! ## Which sockets are open -/

theorem open_of_created {ctx ctx' : Context} {kind : SocketKind} {r : Option Errno} {h : Handle}
    (hs : ctx.socket kind r = (.ok h, ctx')) : ctx'.sockets (ctx.created + 1) ≠ none := by
  cases r with
  | some e => simp [socket] at hs
  | none =>
      obtain ⟨-, rfl⟩ := Prod.mk.inj hs
      simp

theorem open_of_socket {ctx ctx' : Context} {kind : SocketKind} {r : Option Errno}
    {x : Except Errno Handle} {k : Handle} (hs : ctx.socket kind r = (x, ctx'))
    (hk : ctx.sockets k ≠ none) : ctx'.sockets k ≠ none := by
  cases r with
  | some e => exact (Prod.mk.inj hs).2 ▸ hk
  | none =>
      obtain ⟨-, rfl⟩ := Prod.mk.inj hs
      have hne : k ≠ ctx.created + 1 := by
        rintro rfl
        exact hk (ctx.fresh _ (Nat.lt_succ_self _))
      simpa [hne] using hk

theorem open_of_attach {ctx : Context} {h k : Handle} {a : Attachment}
    (hk : ctx.sockets k ≠ none) : (ctx.attach h a).sockets k ≠ none := by
  by_cases hh : k = h
  · subst hh
    simpa [attach] using hk
  · simpa [attach, hh] using hk

theorem open_of_connect {ctx ctx' : Context} {h k : Handle} {url : String}
    {r x : Option Errno} (hc : ctx.connect h url r = (x, ctx')) (hk : ctx.sockets k ≠ none) :
    ctx'.sockets k ≠ none := by
  cases r with
  | some e => exact (Prod.mk.inj hc).2 ▸ hk
  | none => exact (Prod.mk.inj hc).2 ▸ open_of_attach hk

theorem open_of_bind {ctx ctx' : Context} {h k : Handle} {url : String}
    {r x : Option Errno} (hb : ctx.bind h url r = (x, ctx')) (hk : ctx.sockets k ≠ none) :
    ctx'.sockets k ≠ none := by
  unfold bind at hb
  dsimp only at hb
  split at hb
  · exact (Prod.mk.inj hb).2 ▸ hk
  · exact (Prod.mk.inj hb).2 ▸ open_of_attach hk

end Context

end ZeromqAgent
