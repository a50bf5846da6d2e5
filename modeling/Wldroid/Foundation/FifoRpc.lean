import Wldroid.Foundation.Transition

/-!
# Requests and answers over one stream

Calls run concurrently and share a lock, some state and one connection, a pair of byte streams to a
server and back.  The server takes whole requests off the one stream, in order, and puts its answers
on the other; nothing in the bytes tells which call an answer is for.

* `Prog` — what a call does, as a tree of its next actions;
* `Protocol` — which bytes are a whole request and how the server may answer it;
* `RpcState`, `rpcSystem` — all interleavings of the calls' and the server's steps, with partial
  reads and writes;
* `InSync` — every call reads the answers to its own requests and nothing else.
-/

namespace Wldroid.Foundation

variable {σ β φ ρ α ω : Type}

/-! ### Streams -/

/-- A byte of the answering stream, alone or with a descriptor that travels along. -/
inductive Item (β φ : Type) where
  | byte (b : β)
  | fd (b : β) (f : φ)

/-- The byte. -/
def Item.value : Item β φ → β
  | .byte b => b
  | .fd b _ => b

/-- The descriptor that comes with it. -/
def Item.attached : Item β φ → Option φ
  | .byte _ => none
  | .fd _ f => some f

/-- What a plain read gets: a descriptor that comes along is lost. -/
def Item.plain (x : Item β φ) : Item β φ := .byte x.value

/-! ### Programs -/

/-- A call, from some point on.  A read or a write goes on until all bytes have been moved. -/
inductive Prog (σ β φ ρ : Type) where
  | done (result : ρ)
  | lock (next : Prog σ β φ ρ)
  | unlock (next : Prog σ β φ ρ)
  | load (next : σ → Prog σ β φ ρ)
  | store (f : σ → σ) (next : Prog σ β φ ρ)
  | write (bytes : List β) (next : Prog σ β φ ρ)
  | read (count : ℕ) (next : List β → Prog σ β φ ρ)
  | recvFd (next : Option φ → Prog σ β φ ρ)

/-- The call has returned. -/
def Prog.Returned : Prog σ β φ ρ → Prop
  | .done _ => True
  | _ => False

/-- The call needs something from the server to go on. -/
def Prog.Waits : Prog σ β φ ρ → Prop
  | .read count _ => count ≠ 0
  | .recvFd _ => True
  | _ => False

/-- A write of which these bytes are left. -/
def Prog.writeRest (left : List β) (next : Prog σ β φ ρ) : Prog σ β φ ρ :=
  if left.isEmpty then next else .write left next

/-- A read of which these bytes have come. -/
def Prog.readRest (count : ℕ) (come : List β) (next : List β → Prog σ β φ ρ) : Prog σ β φ ρ :=
  if come.length = count then next come
  else .read (count - come.length) fun rest => next (come ++ rest)

/-! ### The server -/

/-- What the server does with the bytes it gets.  No request is the beginning of another one. -/
structure Protocol (β φ α : Type) where
  complete : List β → Bool
  respond : List β → α → List (Item β φ)
  complete_ne_nil : ∀ request, complete request → request ≠ []
  frames_apart : ∀ r r', complete r → complete r' → r <+: r' → r = r'

/-! ### Runs -/

/-- The calls, the lock, the streams, and what every call was answered and has received. -/
structure RpcState (σ β φ ρ : Type) where
  shared : σ
  holder : Option ℕ
  calls : ℕ → Option (Prog σ β φ ρ)
  /-- Bytes the server has not taken yet, with the call that wrote them. -/
  toServer : List (β × ℕ)
  /-- Bytes and descriptors that nobody has read yet. -/
  toClient : List (Item β φ)
  /-- The server's answers to the requests a call has sent, each whole request by itself. -/
  answered : ℕ → List (Item β φ)
  received : ℕ → List (Item β φ)

/-- Nothing has happened yet. -/
def RpcState.fresh (shared : σ) : RpcState σ β φ ρ where
  shared := shared
  holder := none
  calls _ := none
  toServer := []
  toClient := []
  answered _ := []
  received _ := []

/-- The call goes on with a program. -/
def RpcState.goto (s : RpcState σ β φ ρ) (i : ℕ) (p : Prog σ β φ ρ) : RpcState σ β φ ρ :=
  { s with calls := Function.update s.calls i (some p) }

/-- The call takes items off the answering stream and keeps what it got of them. -/
def RpcState.take (s : RpcState σ β φ ρ) (i n : ℕ) (got : List (Item β φ)) : RpcState σ β φ ρ :=
  { s with
    toClient := s.toClient.drop n
    received := Function.update s.received i (s.received i ++ got) }

/-- One step of a call; at most `amount` bytes are moved by a read or a write. -/
def RpcState.run (s : RpcState σ β φ ρ) (i amount : ℕ) :
    Prog σ β φ ρ → Option (RpcState σ β φ ρ)
  | .done _ => none
  | .lock next =>
      if s.holder.isNone then some ({ s with holder := some i }.goto i next) else none
  | .unlock next => some ({ s with holder := none }.goto i next)
  | .load next => some (s.goto i (next s.shared))
  | .store f next => some ({ s with shared := f s.shared }.goto i next)
  | .write bytes next =>
      some ({ s with toServer := s.toServer ++ (bytes.take amount).map fun b => (b, i) }.goto i
        (.writeRest (bytes.drop amount) next))
  | .read count next =>
      let n := min amount count
      let come := s.toClient.take n
      some ((s.take i n (come.map Item.plain)).goto i (.readRest count (come.map Item.value) next))
  | .recvFd next =>
      match s.toClient with
      | [] => none
      | x :: _ => some ((s.take i 1 [x]).goto i (next x.attached))

/-- The server takes some bytes off the stream and answers.  The answer is accounted to the call
that wrote every one of these bytes. -/
def RpcState.answer (s : RpcState σ β φ ρ) (taken left : List (β × ℕ))
    (items : List (Item β φ)) : RpcState σ β φ ρ :=
  { s with
    toServer := left
    toClient := s.toClient ++ items
    answered := fun i => s.answered i ++ if ∀ b ∈ taken, b.2 = i then items else [] }

/-- The server takes the first `n` bytes, if they are a whole request. -/
def RpcState.serve (P : Protocol β φ α) (s : RpcState σ β φ ρ) (n : ℕ) (a : α) :
    Option (RpcState σ β φ ρ) :=
  let taken := s.toServer.take n
  let request := taken.map Prod.fst
  if P.complete request then some (s.answer taken (s.toServer.drop n) (P.respond request a))
  else none

/-- What may happen: a call begins, a call takes a step, the server answers. -/
inductive RpcEvent (ω α : Type) where
  | start (i : ℕ) (op : ω)
  | run (i amount : ℕ)
  | serve (n : ℕ) (a : α)

/-- The next state; every call has a number of its own. -/
def RpcState.next (P : Protocol β φ α) (handler : ω → Prog σ β φ ρ) (s : RpcState σ β φ ρ) :
    RpcEvent ω α → Option (RpcState σ β φ ρ)
  | .start i op => if (s.calls i).isNone then some (s.goto i (handler op)) else none
  | .run i amount => (s.calls i).bind (s.run i amount)
  | .serve n a => s.serve P n a

@[simp] theorem RpcState.goto_calls_self (s : RpcState σ β φ ρ) (i : ℕ) (p : Prog σ β φ ρ) :
    (s.goto i p).calls i = some p :=
  Function.update_self ..

theorem RpcState.goto_calls_of_ne (s : RpcState σ β φ ρ) {i j : ℕ} (h : j ≠ i)
    (p : Prog σ β φ ρ) : (s.goto i p).calls j = s.calls j :=
  Function.update_of_ne h ..

/-- All interleavings of calls to the handlers. -/
def rpcSystem (P : Protocol β φ α) (handler : ω → Prog σ β φ ρ) (shared : σ) :
    System (RpcState σ β φ ρ) (RpcEvent ω α) :=
  System.ofNext (fun s => s = .fresh shared) (RpcState.next P handler)

/-! ### The guarantee -/

/-- **In sync.**  What a call has received is how the answers to its own requests begin; once it has
returned it is these answers, to the last byte and descriptor.  With no call in progress nothing is
left unread, and whoever waits for an answer has one coming. -/
structure InSync (P : Protocol β φ α) (s : RpcState σ β φ ρ) : Prop where
  received_begins : ∀ i, s.received i <+: s.answered i
  returned : ∀ i p, s.calls i = some p → p.Returned → s.received i = s.answered i
  quiet : (∀ i p, s.calls i = some p → p.Returned) → s.toClient = []
  awaited : ∀ i p, s.calls i = some p → p.Waits →
    s.toClient ≠ [] ∨ ∃ n, P.complete ((s.toServer.take n).map Prod.fst)

end Wldroid.Foundation
