import Gateway.Lib.Bytes
import Gateway.Lib.Steps
import Mathlib.Data.Finset.Insert
import Mathlib.Logic.Function.Basic

/-!
# What the echo servers are for

Clients connect, send bytes and get them back until they are disconnected. The servers of
phases 3, 4, 6, 7 and 8 differ in how they wait for their clients. Each of them records the
system calls it makes for its clients, and `EchoService` says what such a record may be: a
descriptor is used between the `accept` that returned it and one `close`, a `send` offers what
is still owed of the last chunk, and the next chunk is received when that was tried.
-/

namespace Gateway.Service
open Steps

/-- A system call for a client. -/
inductive Op where
  | accept (fd : ℤ)
  /-- `recv` returned `bytes` -/
  | recv (fd : ℤ) (bytes : Bytes)
  /-- `send` was given `offered` and took the first `count` of it, none when it failed -/
  | send (fd : ℤ) (offered : Bytes) (count : ℕ)
  | close (fd : ℤ)
deriving DecidableEq

/-- What passed over one connection: all that the `recv`s returned and all that the `send`s
took, the rest of the last chunk, and whether the last `send` was short. -/
structure Session where
  received : Bytes
  echoed : Bytes
  owed : Bytes
  cut : Bool
deriving DecidableEq

namespace Session

def new : Session := ⟨[], [], [], false⟩

def recv (x : Session) (bytes : Bytes) : Session := ⟨x.received ++ bytes, x.echoed, bytes, false⟩

def send (x : Session) (offered : Bytes) (count : ℕ) : Session :=
  ⟨x.received, x.echoed ++ offered.take count, offered.drop count, count < offered.length⟩

/-- Nothing is owed of the last chunk, or the rest of it was given up. -/
def Answered (x : Session) : Prop := x.owed = [] ∨ x.cut = true

instance (x : Session) : Decidable x.Answered := inferInstanceAs (Decidable (_ ∨ _))

theorem answered_new : new.Answered := .inl rfl

/-- After one `send` of all that is owed the next chunk may be received. -/
theorem answered_send (x : Session) {offered : Bytes} {count : ℕ} (hle : count ≤ offered.length) :
    (x.send offered count).Answered := by
  rcases Nat.lt_or_eq_of_le hle with hlt | heq
  · exact .inr (decide_eq_true hlt)
  · left
    show offered.drop count = []
    rw [heq, List.drop_length]

end Session

/-- The open connections by descriptor, and those that have ended. -/
structure EchoService where
  sessions : ℤ → Option Session
  ended : List (ℤ × Session)

namespace EchoService

def init : EchoService := ⟨fun _ => none, []⟩

def put (s : EchoService) (fd : ℤ) (x : Session) : EchoService :=
  { s with sessions := Function.update s.sessions fd (some x) }

def finish (s : EchoService) (fd : ℤ) (x : Session) : EchoService :=
  ⟨Function.update s.sessions fd none, s.ended ++ [(fd, x)]⟩

@[simp] theorem sessions_put (s : EchoService) (fd : ℤ) (x : Session) (g : ℤ) :
    (s.put fd x).sessions g = if g = fd then some x else s.sessions g :=
  Function.update_apply _ _ _ _

@[simp] theorem sessions_finish (s : EchoService) (fd : ℤ) (x : Session) (g : ℤ) :
    (s.finish fd x).sessions g = if g = fd then none else s.sessions g :=
  Function.update_apply _ _ _ _

def step (s : EchoService) : Op → Option EchoService
  | .accept fd =>
    match s.sessions fd with
    | none => some (s.put fd .new)
    | some _ => none
  | .recv fd bytes =>
    (s.sessions fd).bind fun x =>
      if bytes ≠ [] ∧ x.Answered then some (s.put fd (x.recv bytes)) else none
  | .send fd offered count =>
    (s.sessions fd).bind fun x =>
      if offered = x.owed ∧ offered ≠ [] ∧ count ≤ offered.length then
        some (s.put fd (x.send offered count))
      else none
  | .close fd =>
    (s.sessions fd).map (s.finish fd)

end EchoService

/-- The steps of the service, as what holds before and after each. -/
inductive Serves (s : EchoService) : Op → EchoService → Prop
  | accept (fd : ℤ) (hfd : s.sessions fd = none) :
      Serves s (.accept fd) (s.put fd .new)
  | recv {fd : ℤ} {bytes : Bytes} {x : Session} (hx : s.sessions fd = some x)
      (hne : bytes ≠ []) (hanswered : x.Answered) :
      Serves s (.recv fd bytes) (s.put fd (x.recv bytes))
  | send {fd : ℤ} {count : ℕ} {x : Session} (hx : s.sessions fd = some x)
      (hne : x.owed ≠ []) (hcount : count ≤ x.owed.length) :
      Serves s (.send fd x.owed count) (s.put fd (x.send x.owed count))
  | close {fd : ℤ} {x : Session} (hx : s.sessions fd = some x) :
      Serves s (.close fd) (s.finish fd x)

theorem serves_iff {s t : EchoService} {op : Op} : s.step op = some t ↔ Serves s op t := by
  constructor
  · intro h
    cases op with
    | accept fd =>
      rw [EchoService.step] at h
      split at h
      · next hfd =>
        obtain rfl := Option.some.inj h
        exact .accept fd hfd
      · cases h
    | recv fd bytes =>
      obtain ⟨x, hx, h⟩ := Option.bind_eq_some_iff.mp h
      split_ifs at h with hbytes
      obtain rfl := Option.some.inj h
      exact .recv hx hbytes.1 hbytes.2
    | send fd offered count =>
      obtain ⟨x, hx, h⟩ := Option.bind_eq_some_iff.mp h
      split_ifs at h with hoffered
      obtain rfl := Option.some.inj h
      obtain ⟨rfl, hne, hcount⟩ := hoffered
      exact .send hx hne hcount
    | close fd =>
      obtain ⟨x, hx, rfl⟩ := Option.map_eq_some_iff.mp h
      exact .close hx
  · intro h
    cases h with
    | accept fd hfd => simp [EchoService.step, hfd]
    | recv hx hne hanswered => simp [EchoService.step, hx, hne, hanswered]
    | send hx hne hcount => simp [EchoService.step, hx, hne, hcount]
    | close hx => simp [EchoService.step, hx]

/-! ## What every record of the service keeps -/

section Counts
variable (fd : ℤ)

def Op.accepts (op : Op) : Bool := op = .accept fd

def Op.closes (op : Op) : Bool := op = .close fd

/-- The descriptor is closed as often as it was accepted, but for the connection that is open. -/
def Balanced (trace : List Op) (isOpen : Prop) [Decidable isOpen] : Prop :=
  trace.countP (·.accepts fd) = trace.countP (·.closes fd) + if isOpen then 1 else 0

variable {fd}

theorem balanced_of_exec {trace : List Op} {t : EchoService}
    (h : exec EchoService.step .init trace = some t) :
    Balanced fd trace ((t.sessions fd).isSome = true) := by
  unfold Balanced
  induction trace using List.reverseRecOn generalizing t with
  | nil =>
    obtain rfl := Option.some.inj h
    rfl
  | append_singleton trace op ih =>
    obtain ⟨u, hu, hop⟩ := exec_append.mp h
    obtain ⟨v, hv, hvt⟩ := exec_cons.mp hop
    obtain rfl := Option.some.inj hvt
    have hcount := ih hu
    rw [List.countP_append, List.countP_append, hcount]
    -- accept and close change the number of connections of their own descriptor, the other calls
    -- none
    cases serves_iff.mp hv with
    | accept g hg =>
      by_cases hfd : fd = g
      · subst hfd
        simp [Op.accepts, Op.closes, hg]
      · simp [Op.accepts, Op.closes, hfd, Ne.symm hfd]
    | @recv g bytes x hx hne hanswered =>
      by_cases hfd : fd = g
      · subst hfd
        simp [Op.accepts, Op.closes, hx]
      · simp [Op.accepts, Op.closes, hfd]
    | @send g count x hx hne hle =>
      by_cases hfd : fd = g
      · subst hfd
        simp [Op.accepts, Op.closes, hx]
      · simp [Op.accepts, Op.closes, hfd]
    | @close g x hx =>
      by_cases hfd : fd = g
      · subst hfd
        simp [Op.accepts, Op.closes, hx]
      · simp [Op.accepts, Op.closes, hfd, Ne.symm hfd]

end Counts

/-- Every connection, open or ended, has the property. -/
def EchoService.AllSessions (P : Session → Prop) (s : EchoService) : Prop :=
  (∀ fd x, s.sessions fd = some x → P x) ∧ ∀ y ∈ s.ended, P y.2

theorem EchoService.AllSessions.mono {P Q : Session → Prop} (hPQ : ∀ x, P x → Q x)
    {s : EchoService} (h : s.AllSessions P) : s.AllSessions Q :=
  ⟨fun fd x hx => hPQ x (h.1 fd x hx), fun y hy => hPQ y.2 (h.2 y hy)⟩

/-- What is owed is the end of what was received, and what went back is part of the rest. -/
def Session.Settled (x : Session) : Prop :=
  ∃ answered, answered ++ x.owed = x.received ∧ x.echoed.Sublist answered

def bufferSize : ℕ := 1024

/-- `char buffer[BUFFER_SIZE]` after a `memset` to zero and a `recv` that returned `bytes`. -/
def bufferOf (bytes : Bytes) : Bytes := bytes ++ List.replicate (bufferSize - bytes.length) 0

/-- The client descriptors that are open, and the record of the calls made for them. -/
structure Sockets where
  openFds : Finset ℤ := ∅
  trace : List Op := []

namespace Sockets

def accept (k : Sockets) (fd : ℤ) : Sockets := ⟨insert fd k.openFds, k.trace ++ [.accept fd]⟩

def recv (k : Sockets) (fd : ℤ) (bytes : Bytes) : Sockets :=
  { k with trace := k.trace ++ [.recv fd bytes] }

def send (k : Sockets) (fd : ℤ) (offered : Bytes) (count : ℕ) : Sockets :=
  { k with trace := k.trace ++ [.send fd offered count] }

/-- `recv` returns `bytes`, and `send(fd, buffer, bytes, 0)` takes `count` of what is in the
buffer; its result is not looked at. -/
def echo (k : Sockets) (fd : ℤ) (bytes : Bytes) (count : ℕ) : Sockets :=
  (k.recv fd bytes).send fd ((bufferOf bytes).take bytes.length) count

def close (k : Sockets) (fd : ℤ) : Sockets := ⟨k.openFds.erase fd, k.trace ++ [.close fd]⟩

@[simp] theorem openFds_accept (k : Sockets) (fd : ℤ) :
    (k.accept fd).openFds = insert fd k.openFds := rfl

@[simp] theorem openFds_recv (k : Sockets) (fd : ℤ) (bytes : Bytes) :
    (k.recv fd bytes).openFds = k.openFds := rfl

@[simp] theorem openFds_send (k : Sockets) (fd : ℤ) (offered : Bytes) (count : ℕ) :
    (k.send fd offered count).openFds = k.openFds := rfl

@[simp] theorem openFds_echo (k : Sockets) (fd : ℤ) (bytes : Bytes) (count : ℕ) :
    (k.echo fd bytes count).openFds = k.openFds := rfl

@[simp] theorem openFds_close (k : Sockets) (fd : ℤ) :
    (k.close fd).openFds = k.openFds.erase fd := rfl

/-- The record takes the echo service to `t`, whose connections are the open descriptors. -/
structure Leads (k : Sockets) (t : EchoService) : Prop where
  exec : exec EchoService.step .init k.trace = some t
  isSome : ∀ fd, (t.sessions fd).isSome = true ↔ fd ∈ k.openFds

/-- The record is one of the echo service. -/
def Legal (k : Sockets) : Prop := ∃ t, k.Leads t

/-- The record is one of the echo service, between two callbacks: the last chunk of every client
was answered. -/
def Answered (k : Sockets) : Prop :=
  ∃ t, k.Leads t ∧ ∀ fd x, t.sessions fd = some x → x.Answered

theorem leads_empty : Leads {} .init := ⟨rfl, by simp [EchoService.init]⟩

theorem answered_empty : Answered {} := ⟨.init, leads_empty, nofun⟩

variable {k : Sockets} {t : EchoService} {fd : ℤ}

theorem exec_snoc {u : EchoService} {op : Op}
    (ht : Steps.exec EchoService.step .init k.trace = some t) (hop : Serves t op u) :
    Steps.exec EchoService.step .init (k.trace ++ [op]) = some u :=
  exec_append.mpr ⟨t, ht, exec_cons.mpr ⟨u, serves_iff.mpr hop, rfl⟩⟩

/-- A call for an open connection that leaves it open. -/
theorem Leads.put (h : k.Leads t) {x y : Session} (hx : t.sessions fd = some x) {op : Op}
    (hop : Serves t op (t.put fd y)) : Leads { k with trace := k.trace ++ [op] } (t.put fd y) := by
  have hfd : fd ∈ k.openFds := (h.isSome fd).mp (by rw [hx]; rfl)
  refine ⟨exec_snoc h.exec hop, ?_⟩
  intro g
  rw [EchoService.sessions_put]
  by_cases hg : g = fd <;> simp [hg, h.isSome, hfd]

theorem Leads.accept (h : k.Leads t) (hfd : fd ∉ k.openFds) :
    (k.accept fd).Leads (t.put fd .new) := by
  have hnone : t.sessions fd = none := by
    rw [← Option.not_isSome_iff_eq_none]
    exact mt (h.isSome fd).mp hfd
  refine ⟨exec_snoc h.exec (.accept fd hnone), ?_⟩
  intro g
  rw [EchoService.sessions_put, openFds_accept, Finset.mem_insert]
  by_cases hg : g = fd <;> simp [hg, h.isSome]

theorem Leads.recv (h : k.Leads t) {x : Session} (hx : t.sessions fd = some x) {bytes : Bytes}
    (hne : bytes ≠ []) (hanswered : x.Answered) :
    (k.recv fd bytes).Leads (t.put fd (x.recv bytes)) :=
  h.put hx (.recv hx hne hanswered)

theorem Leads.send (h : k.Leads t) {x : Session} (hx : t.sessions fd = some x) {count : ℕ}
    (hne : x.owed ≠ []) (hle : count ≤ x.owed.length) :
    (k.send fd x.owed count).Leads (t.put fd (x.send x.owed count)) :=
  h.put hx (.send hx hne hle)

theorem Leads.close (h : k.Leads t) {x : Session} (hx : t.sessions fd = some x) :
    (k.close fd).Leads (t.finish fd x) := by
  refine ⟨exec_snoc h.exec (.close hx), ?_⟩
  intro g
  rw [EchoService.sessions_finish, openFds_close, Finset.mem_erase]
  by_cases hg : g = fd <;> simp [hg, h.isSome]

theorem Leads.session (h : k.Leads t) (hfd : fd ∈ k.openFds) : ∃ x, t.sessions fd = some x :=
  Option.isSome_iff_exists.mp ((h.isSome fd).mpr hfd)

theorem Answered.legal (h : k.Answered) : k.Legal := by
  obtain ⟨t, ht, -⟩ := h
  exact ⟨t, ht⟩

theorem Answered.accept (h : k.Answered) (hfd : fd ∉ k.openFds) : (k.accept fd).Answered := by
  obtain ⟨t, ht, hall⟩ := h
  refine ⟨_, ht.accept hfd, fun g y hy => ?_⟩
  rw [EchoService.sessions_put] at hy
  split_ifs at hy
  · exact Option.some.inj hy ▸ Session.answered_new
  · exact hall g y hy

/-- What is sent from the buffer is what was received into it. -/
theorem take_bufferOf (bytes : Bytes) : (bufferOf bytes).take bytes.length = bytes :=
  List.take_left

theorem Answered.echo (h : k.Answered) (hfd : fd ∈ k.openFds) {bytes : Bytes} {count : ℕ}
    (hne : bytes ≠ []) (hle : count ≤ bytes.length) : (k.echo fd bytes count).Answered := by
  obtain ⟨t, ht, hall⟩ := h
  obtain ⟨x, hx⟩ := ht.session hfd
  have hrecv := ht.recv hx hne (hall fd x hx)
  have hsession : (t.put fd (x.recv bytes)).sessions fd = some (x.recv bytes) := by simp
  have hsend : (k.echo fd bytes count).Leads
      ((t.put fd (x.recv bytes)).put fd ((x.recv bytes).send bytes count)) := by
    rw [Sockets.echo, take_bufferOf]
    exact hrecv.send hsession hne hle
  refine ⟨_, hsend, fun g y hy => ?_⟩
  rw [EchoService.sessions_put, EchoService.sessions_put] at hy
  split_ifs at hy
  · obtain rfl := Option.some.inj hy
    exact (x.recv bytes).answered_send hle
  · exact hall g y hy

theorem Answered.close (h : k.Answered) (hfd : fd ∈ k.openFds) : (k.close fd).Answered := by
  obtain ⟨t, ht, hall⟩ := h
  obtain ⟨x, hx⟩ := ht.session hfd
  refine ⟨_, ht.close hx, fun g y hy => ?_⟩
  rw [EchoService.sessions_finish] at hy
  split_ifs at hy
  exact hall g y hy

/-- Every descriptor is closed as often as it was accepted, but for the open ones. -/
theorem Legal.balanced (h : k.Legal) (fd : ℤ) : Balanced fd k.trace (fd ∈ k.openFds) := by
  obtain ⟨t, ht⟩ := h
  have hbalanced : Balanced fd k.trace _ := balanced_of_exec ht.exec
  unfold Balanced at hbalanced ⊢
  simpa only [ht.isSome fd] using hbalanced

end Sockets

/-! ## Non-blocking sockets -/

/-- What `recv` on a non-blocking client socket does, and how many of the bytes the `send` that
echoes them takes (none when it fails). -/
inductive Recv where
  | data (bytes : Bytes) (count : ℕ)
  | endOfFile
  | wouldBlock
  | error
deriving DecidableEq

/-- `recv` returns between one byte and the `BUFFER_SIZE - 1` that there is room for, and `send`
accepts at most what it is given. -/
def Recv.Possible : Recv → Prop
  | .data bytes count => bytes ≠ [] ∧ bytes.length ≤ 1023 ∧ count ≤ bytes.length
  | .endOfFile => True
  | .wouldBlock => True
  | .error => True

instance : ∀ r : Recv, Decidable r.Possible
  | .data bytes count =>
    inferInstanceAs (Decidable (bytes ≠ [] ∧ bytes.length ≤ 1023 ∧ count ≤ bytes.length))
  | .endOfFile => inferInstanceAs (Decidable True)
  | .wouldBlock => inferInstanceAs (Decidable True)
  | .error => inferInstanceAs (Decidable True)

/-- What `accept` on a non-blocking listening socket does. -/
inductive Accept where
  | client (fd : ℤ)
  | wouldBlock
  | error
deriving DecidableEq

/-- The system returns a descriptor that is not in use. -/
def Accept.Possible (used : ℤ → Prop) : Accept → Prop
  | .client fd => 0 ≤ fd ∧ ¬used fd
  | .wouldBlock => True
  | .error => True

instance (used : ℤ → Prop) [DecidablePred used] : ∀ r : Accept, Decidable (r.Possible used)
  | .client fd => inferInstanceAs (Decidable (0 ≤ fd ∧ ¬used fd))
  | .wouldBlock => inferInstanceAs (Decidable True)
  | .error => inferInstanceAs (Decidable True)

end Gateway.Service
