import Gateway.Service.EchoService

/-!
# The reactor (`include/core/EpollReactor.hpp`)

`EpollReactor` keeps one callback for each descriptor and calls them for the events of
`epoll_wait`, a batch at a time. Callbacks may register and unregister descriptors while a
batch is under way. What an event is raised for is a registration: `EPOLL_CTL_ADD` gives it a
number that no other registration has, and the model stores that number with the callback.
-/

namespace Gateway.Service
open Steps

def epollIn : UInt32 := 0x001

def epollErr : UInt32 := 0x008

def epollHup : UInt32 := 0x010

structure Registration where
  number : ℕ
  flags : UInt32
deriving DecidableEq

/-- An epoll instance of the kernel. -/
structure Epoll where
  interest : ℤ → Option Registration
  next : ℕ

/-- One `struct epoll_event` that `epoll_wait` fills in, with the registration it is for. -/
structure Ready where
  fd : ℤ
  events : UInt32
  number : ℕ
deriving DecidableEq

namespace Epoll

/-- `epoll_create1` -/
def create : Epoll := ⟨fun _ => none, 0⟩

/-- The number of the registration of a descriptor. -/
def number (ep : Epoll) (fd : ℤ) : Option ℕ := (ep.interest fd).map Registration.number

/-- `EPOLL_CTL_ADD`, which fails for a descriptor in the list and may fail otherwise. -/
def add (ep : Epoll) (fd : ℤ) (flags : UInt32) (succeeds : Bool) : Option Epoll :=
  if succeeds ∧ ep.interest fd = none then
    some ⟨Function.update ep.interest fd (some ⟨ep.next, flags⟩), ep.next + 1⟩
  else none

/-- `EPOLL_CTL_MOD` -/
def mod (ep : Epoll) (fd : ℤ) (flags : UInt32) (succeeds : Bool) : Option Epoll :=
  if succeeds then
    (ep.interest fd).map fun r =>
      { ep with interest := Function.update ep.interest fd (some { r with flags }) }
  else none

/-- `EPOLL_CTL_DEL`, and what closing a descriptor does to the list. -/
def del (ep : Epoll) (fd : ℤ) : Epoll :=
  { ep with interest := Function.update ep.interest fd none }

/-- What `epoll_wait` may return: events of registered descriptors, one at most for each. -/
def Raises (ep : Epoll) (maxEvents : ℕ) (events : List Ready) : Prop :=
  events.length ≤ maxEvents ∧ (events.map Ready.fd).Nodup ∧
    ∀ e ∈ events, ep.number e.fd = some e.number

instance (ep : Epoll) (maxEvents : ℕ) (events : List Ready) :
    Decidable (ep.Raises maxEvents events) :=
  inferInstanceAs (Decidable (_ ∧ _ ∧ _))

theorem number_add {ep ep' : Epoll} {fd : ℤ} {flags : UInt32} {succeeds : Bool}
    (h : ep.add fd flags succeeds = some ep') (g : ℤ) :
    ep'.number g = if g = fd then some ep.next else ep.number g := by
  unfold add at h
  split_ifs at h
  obtain rfl := Option.some.inj h
  simp only [number, Function.update_apply]
  split_ifs <;> rfl

theorem number_mod {ep ep' : Epoll} {fd : ℤ} {flags : UInt32} {succeeds : Bool}
    (h : ep.mod fd flags succeeds = some ep') (g : ℤ) : ep'.number g = ep.number g := by
  unfold mod at h
  split_ifs at h
  obtain ⟨r, hr, rfl⟩ := Option.map_eq_some_iff.mp h
  simp only [number, Function.update_apply]
  split_ifs with hg
  · rw [hg, hr]
    rfl
  · rfl

theorem number_del (ep : Epoll) (fd g : ℤ) :
    (ep.del fd).number g = if g = fd then none else ep.number g := by
  simp only [number, del, Function.update_apply]
  split_ifs <;> rfl

end Epoll

/-- The class, for callbacks named by `κ`; `callbacks` has the number of the registration a
callback was stored for. -/
structure EpollReactor (κ : Type*) where
  epoll : Epoll
  maxEvents : ℕ
  running : Bool
  callbacks : ℤ → Option (κ × ℕ)

namespace EpollReactor
variable {κ : Type*}

def new (maxEvents : ℕ) : EpollReactor κ := ⟨.create, maxEvents, false, fun _ => none⟩

def addSocket (r : EpollReactor κ) (fd : ℤ) (eventFlags : UInt32) (callback : κ)
    (ctl : Bool) : Bool × EpollReactor κ :=
  match r.epoll.add fd eventFlags ctl with
  | none => (false, r)
  | some epoll =>
    (true, { r with
      epoll, callbacks := Function.update r.callbacks fd (some (callback, r.epoll.next)) })

def modifySocket (r : EpollReactor κ) (fd : ℤ) (eventFlags : UInt32) (ctl : Bool) :
    Bool × EpollReactor κ :=
  match r.epoll.mod fd eventFlags ctl with
  | none => (false, r)
  | some epoll => (true, { r with epoll })

/-- The callback goes whether `EPOLL_CTL_DEL` succeeds or not. -/
def removeSocket (r : EpollReactor κ) (fd : ℤ) (ctl : Bool) : Bool × EpollReactor κ :=
  let epoll := if ctl then r.epoll.del fd else r.epoll
  (true, { r with epoll, callbacks := Function.update r.callbacks fd none })

def stop (r : EpollReactor κ) : EpollReactor κ := { r with running := false }

/-- The kernel forgets a descriptor that is closed. -/
def closed (r : EpollReactor κ) (fd : ℤ) : EpollReactor κ := { r with epoll := r.epoll.del fd }

theorem callbacks_addSocket (r : EpollReactor κ) (fd : ℤ) (eventFlags : UInt32) (callback : κ)
    (ctl : Bool) (g : ℤ) :
    (r.addSocket fd eventFlags callback ctl).2.callbacks g =
      if g = fd ∧ (r.addSocket fd eventFlags callback ctl).1 = true then
        some (callback, r.epoll.next)
      else r.callbacks g := by
  unfold addSocket
  split
  · simp
  · simp [Function.update_apply]

theorem callbacks_removeSocket (r : EpollReactor κ) (fd : ℤ) (ctl : Bool) (g : ℤ) :
    (r.removeSocket fd ctl).2.callbacks g = if g = fd then none else r.callbacks g :=
  Function.update_apply _ _ _ _

theorem number_addSocket (r : EpollReactor κ) (fd : ℤ) (eventFlags : UInt32) (callback : κ)
    (ctl : Bool) {g : ℤ} (hg : g ≠ fd) :
    (r.addSocket fd eventFlags callback ctl).2.epoll.number g = r.epoll.number g := by
  unfold addSocket
  split
  · rfl
  · next epoll hadd => exact (Epoll.number_add hadd g).trans (if_neg hg)

theorem number_removeSocket_closed (r : EpollReactor κ) (fd : ℤ) (ctl : Bool) (g : ℤ) :
    ((r.removeSocket fd ctl).2.closed fd).epoll.number g =
      if g = fd then none else r.epoll.number g := by
  cases ctl with
  | false => exact Epoll.number_del _ _ _
  | true =>
    have hdel : ((r.removeSocket fd true).2.closed fd).epoll.number g =
        if g = fd then none else (r.epoll.del fd).number g := Epoll.number_del _ _ _
    rw [hdel, Epoll.number_del]
    split_ifs <;> rfl

/-- The callback that would be called for `fd` is that of the kernel's registration of `fd`. -/
def Registered (r : EpollReactor κ) (fd : ℤ) (number : ℕ) : Prop :=
  r.epoll.number fd = some number ∧ ∃ callback, r.callbacks fd = some (callback, number)

/-- Callbacks are kept for the descriptors in the kernel's list. -/
def Synced (r : EpollReactor κ) : Prop :=
  ∀ fd, (r.callbacks fd).map Prod.snd = r.epoll.number fd

theorem Synced.registered {r : EpollReactor κ} (h : r.Synced) {fd : ℤ} {number : ℕ}
    (hfd : r.epoll.number fd = some number) : r.Registered fd number := by
  have hcallback := h fd
  rw [hfd] at hcallback
  obtain ⟨⟨callback, n⟩, hget, rfl⟩ := Option.map_eq_some_iff.mp hcallback
  exact ⟨hfd, callback, hget⟩

theorem synced_new (maxEvents : ℕ) : (new maxEvents : EpollReactor κ).Synced := fun _ => rfl

theorem Synced.addSocket {r : EpollReactor κ} (h : r.Synced) (fd : ℤ) (eventFlags : UInt32)
    (callback : κ) (ctl : Bool) : (r.addSocket fd eventFlags callback ctl).2.Synced := by
  unfold EpollReactor.addSocket
  split
  · exact h
  · next epoll hadd =>
    intro g
    simp only [Epoll.number_add hadd, Function.update_apply]
    split_ifs
    · rfl
    · exact h g

theorem Synced.modifySocket {r : EpollReactor κ} (h : r.Synced) (fd : ℤ) (eventFlags : UInt32)
    (ctl : Bool) : (r.modifySocket fd eventFlags ctl).2.Synced := by
  unfold EpollReactor.modifySocket
  split
  · exact h
  · next epoll hmod =>
    intro g
    rw [Epoll.number_mod hmod]
    exact h g

/-- Unregistering and closing a descriptor, as every callback does it. -/
theorem Synced.removeSocket_closed {r : EpollReactor κ} (h : r.Synced) (fd : ℤ) (ctl : Bool) :
    ((r.removeSocket fd ctl).2.closed fd).Synced := by
  intro g
  rw [number_removeSocket_closed]
  change ((r.removeSocket fd ctl).2.callbacks g).map Prod.snd = _
  rw [callbacks_removeSocket]
  split_ifs
  · rfl
  · exact h g

end EpollReactor

/-! ## The event loop -/

/-- Where `run` is in a program with the state `σ`: the events of the batch that are still to be
dispatched, and whether the loop has ended. -/
structure Loop (σ κ : Type*) where
  state : σ
  reactor : EpollReactor κ
  pending : List Ready := []
  exited : Bool := false

/-- What happens in `run`; the results of the system calls a callback makes are of type `ρ`. -/
inductive LoopAct (ρ : Type*) where
  | wait (events : List Ready)
  /-- `epoll_wait` is interrupted by a signal -/
  | interrupted
  | waitFailed
  | dispatch (results : ρ)
  /-- someone calls `stop` -/
  | stop
  | leave

namespace Loop
variable {σ κ ρ : Type*}

/-- At the head of the loop, between two batches. -/
def AtHead (l : Loop σ κ) : Prop := l.pending = [] ∧ l.exited = false

instance (l : Loop σ κ) : Decidable l.AtHead := inferInstanceAs (Decidable (_ ∧ _))

/-- `run`, where `handle` calls a callback with an event; `none` when the system cannot give the
results. -/
def step (handle : κ → Ready → ρ → σ × EpollReactor κ → Option (σ × EpollReactor κ))
    (l : Loop σ κ) : LoopAct ρ → Option (Loop σ κ)
  | .wait events =>
    if l.AtHead ∧ l.reactor.running ∧ l.reactor.epoll.Raises l.reactor.maxEvents events then
      some { l with pending := events }
    else none
  | .interrupted => if l.AtHead ∧ l.reactor.running then some l else none
  | .waitFailed => if l.AtHead ∧ l.reactor.running then some { l with exited := true } else none
  | .dispatch results =>
    match l.pending with
    | [] => none
    | e :: pending =>
      match l.reactor.callbacks e.fd with
      | none => some { l with pending }
      | some (callback, _) =>
        (handle callback e results (l.state, l.reactor)).map fun r =>
          { l with state := r.1, reactor := r.2, pending }
  | .stop => some { l with reactor := l.reactor.stop }
  | .leave =>
    if l.AtHead ∧ l.reactor.running = false then some { l with exited := true } else none

variable {handle : κ → Ready → ρ → σ × EpollReactor κ → Option (σ × EpollReactor κ)}

/-- The callbacks keep `I`, and each of them leaves the registrations of the descriptors it is
not called for alone. -/
structure Confined (handle : κ → Ready → ρ → σ × EpollReactor κ → Option (σ × EpollReactor κ))
    (I : σ → EpollReactor κ → Prop) : Prop where
  synced : ∀ {s r}, I s r → r.Synced
  stop : ∀ {s r}, I s r → I s r.stop
  keeps : ∀ {s r e results s' r' callback}, I s r →
    r.callbacks e.fd = some (callback, e.number) →
    handle callback e results (s, r) = some (s', r') → I s' r'
  others : ∀ {s r e results s' r' callback g n}, I s r → g ≠ e.fd →
    r.callbacks e.fd = some (callback, e.number) →
    handle callback e results (s, r) = some (s', r') → r.epoll.number g = some n →
    r'.epoll.number g = some n

/-- Events of one batch are for different descriptors, and each of them is still registered under
the number the event was raised for. -/
def Current (l : Loop σ κ) : Prop :=
  (l.pending.map Ready.fd).Nodup ∧ ∀ e ∈ l.pending, l.reactor.Registered e.fd e.number

theorem current_step {I : σ → EpollReactor κ → Prop} (hc : Confined handle I) {l l' : Loop σ κ}
    {act : LoopAct ρ} (hI : I l.state l.reactor) (hl : l.Current)
    (hstep : l.step handle act = some l') : I l'.state l'.reactor ∧ l'.Current := by
  cases act with
  | wait events =>
    rw [step] at hstep
    split_ifs at hstep with hif
    obtain rfl := Option.some.inj hstep
    obtain ⟨-, -, -, hnodup, hraised⟩ := hif
    exact ⟨hI, hnodup, fun e he => (hc.synced hI).registered (hraised e he)⟩
  | interrupted =>
    rw [step] at hstep
    split_ifs at hstep
    obtain rfl := Option.some.inj hstep
    exact ⟨hI, hl⟩
  | waitFailed =>
    rw [step] at hstep
    split_ifs at hstep
    obtain rfl := Option.some.inj hstep
    exact ⟨hI, hl⟩
  | dispatch results =>
    rw [step] at hstep
    split at hstep
    · cases hstep
    · next e pending hpending =>
      obtain ⟨hnodup, hregistered⟩ := hl
      rw [hpending] at hnodup hregistered
      obtain ⟨hfd, hrest⟩ := List.nodup_cons.mp hnodup
      obtain ⟨-, callback, hcallback⟩ := hregistered e List.mem_cons_self
      rw [hcallback] at hstep
      obtain ⟨⟨s', r'⟩, hhandle, rfl⟩ := Option.map_eq_some_iff.mp hstep
      have hI' := hc.keeps hI hcallback hhandle
      refine ⟨hI', hrest, fun e' he' => ?_⟩
      -- the batch has one event a descriptor, so the callback's own descriptor does not come again
      have hne : e'.fd ≠ e.fd := fun heq => hfd (heq ▸ List.mem_map_of_mem he')
      obtain ⟨hnumber, -⟩ := hregistered e' (List.mem_cons_of_mem e he')
      exact (hc.synced hI').registered (hc.others hI hne hcallback hhandle hnumber)
  | stop =>
    obtain rfl := Option.some.inj hstep
    exact ⟨hc.stop hI, hl⟩
  | leave =>
    rw [step] at hstep
    split_ifs at hstep
    obtain rfl := Option.some.inj hstep
    exact ⟨hI, hl⟩

/-- In every run of the loop, no event of a batch is lost or reaches a registration other than
the one it was raised for. -/
theorem current_run {I : σ → EpollReactor κ → Prop} (hc : Confined handle I) {l l' : Loop σ κ}
    {acts : List (LoopAct ρ)} (hI : I l.state l.reactor) (hl : l.pending = [])
    (hrun : exec (step handle) l acts = some l') : I l'.state l'.reactor ∧ l'.Current := by
  refine invariant_of_meets (G := fun _ _ => True) (I := fun l => I l.state l.reactor ∧ l.Current)
    (fun l act l' h _ hstep => current_step hc h.1 h.2 hstep) ⟨hI, ?_⟩
    (meets_of_forall_mem (fun _ _ _ => trivial) l) hrun
  simp [Current, hl]

end Loop

end Gateway.Service
