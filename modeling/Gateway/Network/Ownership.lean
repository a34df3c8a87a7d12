import Gateway.Lib.Steps
import Gateway.Network.RAIISocket

/-!
# Every descriptor is closed or released exactly once

The invariant is stated descriptor by descriptor: either no object holds it and the events
about it pair off, or exactly one object holds it and its last hand-in is still open.
-/

namespace Gateway.Network.Sockets
open Steps

variable {O : Type*}

/-! ## Custody of a descriptor -/

/-- Every hand-in is followed by the one event that ends it. -/
inductive Matched : List (SocketEvent O) → Prop
  | nil : Matched []
  | pair {l : List (SocketEvent O)} (h : Matched l) (o : O) (fd : ℤ) {e : SocketEvent O}
      (he : e.Gives) : Matched (l ++ [.handIn o fd, e])

/-- Every hand-in but the last one is matched. -/
inductive Pending : List (SocketEvent O) → Prop
  | handIn {l : List (SocketEvent O)} (h : Matched l) (o : O) (fd : ℤ) :
      Pending (l ++ [.handIn o fd])

theorem Pending.give {l : List (SocketEvent O)} (h : Pending l) {e : SocketEvent O}
    (he : e.Gives) : Matched (l ++ [e]) := by
  obtain ⟨h, o, fd⟩ := h
  rw [List.append_assoc]
  exact .pair h o fd he

/-- A descriptor is free, and its hand-ins are matched, or one object holds it. -/
inductive Custody (s : Sockets O) (fd : ℤ) : Prop
  | free (hmatched : Matched (s.about fd)) (hnone : ∀ o, s.fd o ≠ some fd)
  | held (hpending : Pending (s.about fd)) (o : O) (hone : ∀ o', s.fd o' = some fd ↔ o' = o)

/-- The state of every descriptor. -/
def Owned (s : Sockets O) : Prop := ∀ fd, 0 ≤ fd → Custody s fd

theorem owned_init : Owned (init : Sockets O) :=
  fun _ _ => .free .nil fun _ h => nomatch h

/-- Custody depends on the events about the descriptor and on who holds it. -/
theorem Custody.congr {s t : Sockets O} {fd : ℤ} (h : Custody s fd)
    (hevents : t.about fd = s.about fd) (hfd : ∀ o, t.fd o = some fd ↔ s.fd o = some fd) :
    Custody t fd := by
  cases h with
  | free hmatched hnone => exact .free (hevents ▸ hmatched) fun o ho => hnone o ((hfd o).mp ho)
  | held hpending o hone => exact .held (hevents ▸ hpending) o fun o' => (hfd o').trans (hone o')

/-- What the holder of a descriptor knows. -/
theorem Owned.held {s : Sockets O} (hs : Owned s) {o : O} {fd : ℤ} (ho : s.fd o = some fd)
    (hfd : 0 ≤ fd) : Pending (s.about fd) ∧ ∀ o', s.fd o' = some fd ↔ o' = o := by
  cases hs fd hfd with
  | free _ hnone => exact absurd ho (hnone o)
  | held hpending p hone =>
    obtain rfl := (hone o).mp ho
    exact ⟨hpending, hone⟩

theorem Owned.matched {s : Sockets O} (hs : Owned s) {fd : ℤ} (hfd : 0 ≤ fd)
    (hnone : ∀ o, s.fd o ≠ some fd) : Matched (s.about fd) := by
  cases hs fd hfd with
  | free hmatched _ => exact hmatched
  | held _ o hone => exact absurd ((hone o).mpr rfl) (hnone o)

@[simp] theorem fd_emit (s : Sockets O) (e : SocketEvent O) : (s.emit e).fd = s.fd := rfl

theorem about_emit (s : Sockets O) (e : SocketEvent O) (fd : ℤ) :
    (s.emit e).about fd = if e.fd = fd then s.about fd ++ [e] else s.about fd := by
  rw [about, emit, List.filter_append, List.filter_cons, ← about]
  split_ifs <;> simp_all

/-- Events about no descriptor do not matter. -/
theorem Owned.emit_of_neg {s : Sockets O} (hs : Owned s) {e : SocketEvent O} (he : e.fd < 0) :
    Owned (s.emit e) := by
  intro fd hfd
  apply (hs fd hfd).congr (t := s.emit e)
  · rw [about_emit, if_neg (by omega)]
  · exact fun _ => Iff.rfl

/-- A value that is no descriptor. -/
def Idle (v : Option ℤ) : Prop := ∀ fd, v = some fd → fd < 0

variable [DecidableEq O]

@[simp] theorem about_set (s : Sockets O) (o : O) (v : Option ℤ) (fd : ℤ) :
    (s.set o v).about fd = s.about fd := rfl

theorem fd_set_eq_iff (s : Sockets O) (o o' : O) (v : Option ℤ) (fd : ℤ) :
    (s.set o v).fd o' = some fd ↔ if o' = o then v = some fd else s.fd o' = some fd := by
  simp only [set, Function.update_apply]
  split_ifs <;> rfl

/-- An object that holds no descriptor may be set to another value that is none. -/
theorem Owned.set {s : Sockets O} (hs : Owned s) {o : O} {v : Option ℤ} (ho : Idle (s.fd o))
    (hv : Idle v) : Owned (s.set o v) := by
  intro fd hfd
  apply (hs fd hfd).congr (about_set s o v fd)
  intro o'
  rw [fd_set_eq_iff]
  split_ifs with heq
  · subst heq
    constructor
    · intro h
      have := hv fd h
      omega
    · intro h
      have := ho fd h
      omega
  · rfl

/-- An object that gives its descriptor away, by `close` or by `release`. -/
theorem Owned.give {s : Sockets O} (hs : Owned s) {o : O} {fd : ℤ} (ho : s.fd o = some fd)
    {e : SocketEvent O} (he : e.Gives) (hefd : e.fd = fd) (hfd : 0 ≤ fd) :
    Owned ((s.emit e).set o (some (-1))) := by
  obtain ⟨hpending, hone⟩ := hs.held ho hfd
  intro fd' hfd'
  by_cases hsame : fd' = fd
  · subst hsame
    apply Custody.free
    · rw [about_set, about_emit, if_pos hefd]
      exact hpending.give he
    · intro o'
      rw [Ne, fd_set_eq_iff, fd_emit]
      split_ifs with heq
      · simp only [Option.some.injEq]
        omega
      · exact mt (hone o').mp heq
  · apply (hs fd' hfd').congr
    · rw [about_set, about_emit, if_neg (by omega)]
    · intro o'
      rw [fd_set_eq_iff, fd_emit]
      split_ifs with heq
      · subst heq
        simp only [ho, Option.some.injEq]
        omega
      · rfl

theorem Owned.closeFd {s : Sockets O} (hs : Owned s) {o : O} {fd : ℤ} (ho : s.fd o = some fd) :
    Owned (s.closeFd o fd) := by
  rw [Sockets.closeFd]
  split_ifs with hfd
  · exact hs.give ho trivial rfl hfd
  · exact hs

theorem idle_closeFd {s : Sockets O} {o : O} {fd : ℤ} (ho : s.fd o = some fd) :
    Idle ((s.closeFd o fd).fd o) := by
  intro fd' h
  rw [Sockets.closeFd] at h
  split_ifs at h with hfd
  · rw [fd_set_eq_iff, if_pos rfl, Option.some.injEq] at h
    omega
  · rw [ho, Option.some.injEq] at h
    omega

theorem Owned.handIn {s : Sockets O} (hs : Owned s) {o : O} (ho : Idle (s.fd o)) {fd : ℤ}
    (hfresh : 0 ≤ fd → ∀ o, s.fd o ≠ some fd) : Owned (s.handIn o fd) := by
  intro fd' hfd'
  by_cases hsame : fd' = fd
  · subst hsame
    apply Custody.held _ o
    · intro o'
      rw [Sockets.handIn, fd_set_eq_iff, fd_emit]
      split_ifs with heq
      · exact iff_of_true rfl heq
      · exact iff_of_false (hfresh hfd' o') heq
    · rw [Sockets.handIn, about_set, about_emit, if_pos (by rfl)]
      exact .handIn (hs.matched hfd' (hfresh hfd')) o fd'
  · apply (hs fd' hfd').congr
    · rw [Sockets.handIn, about_set, about_emit]
      exact if_neg (Ne.symm hsame)
    · intro o'
      rw [Sockets.handIn, fd_set_eq_iff, fd_emit]
      split_ifs with heq
      · subst heq
        apply iff_of_false
        · exact fun h => hsame (Option.some.inj h).symm
        · intro h
          have := ho fd' h
          omega
      · rfl

theorem Owned.takeFrom {s : Sockets O} (hs : Owned s) {o other : O} (hne : o ≠ other) {fd : ℤ}
    (ho : Idle (s.fd o)) (hother : s.fd other = some fd) : Owned (s.takeFrom o other fd) := by
  have hfd_iff (o' : O) (fd' : ℤ) (hfd' : 0 ≤ fd') : (s.takeFrom o other fd).fd o' = some fd' ↔
      if o' = o then fd = fd' else o' ≠ other ∧ s.fd o' = some fd' := by
    have hminus : (some (-1) : Option ℤ) ≠ some fd' := by
      simp only [Ne, Option.some.injEq]
      omega
    rw [Sockets.takeFrom, fd_set_eq_iff, fd_set_eq_iff]
    by_cases heq : o' = o
    · subst heq
      simp [hne]
    · simp only [heq, if_false]
      by_cases heq' : o' = other <;> simp [heq', hminus]
  intro fd' hfd'
  -- the descriptor that moves has one holder before and after; the others keep theirs
  by_cases hsame : fd' = fd
  · subst hsame
    obtain ⟨hpending, hone⟩ := hs.held hother hfd'
    refine .held (s := s.takeFrom o other fd') hpending o fun o' => ?_
    rw [hfd_iff o' fd' hfd']
    split_ifs with heq
    · exact iff_of_true rfl heq
    · exact iff_of_false (fun h => h.1 ((hone o').mp h.2)) heq
  · refine (hs fd' hfd').congr (t := s.takeFrom o other fd) rfl fun o' => ?_
    rw [hfd_iff o' fd' hfd']
    split_ifs with heq
    · subst heq
      apply iff_of_false
      · exact fun h => hsame h.symm
      · intro h
        have := ho fd' h
        omega
    · constructor
      · exact And.right
      · intro h
        refine ⟨?_, h⟩
        rintro rfl
        rw [hother] at h
        exact hsame (Option.some.inj h).symm

/-! ## Programs -/

/-- A descriptor handed to a constructor or to `reset` is held by no object. -/
def HandsInUnheld (s : Sockets O) : SocketOp O → Prop
  | .construct _ fd => 0 ≤ fd → ∀ o, s.fd o ≠ some fd
  | .reset _ newFd => 0 ≤ newFd → ∀ o, s.fd o ≠ some newFd
  | _ => True

theorem fd_closeFd_of_ne (s : Sockets O) {o o' : O} (h : o' ≠ o) (fd : ℤ) :
    (s.closeFd o fd).fd o' = s.fd o' := by
  rw [Sockets.closeFd]
  split_ifs
  · exact Function.update_of_ne h _ _
  · rfl

/-- The steps of a program, by what they do. -/
inductive Stepped (s : Sockets O) : SocketOp O → Sockets O → Prop
  | construct {o : O} (fd : ℤ) (ho : s.fd o = none) : Stepped s (.construct o fd) (s.handIn o fd)
  | moveConstruct {o other : O} {fd : ℤ} (ho : s.fd o = none) (hother : s.fd other = some fd) :
    Stepped s (.moveConstruct o other) (s.takeFrom o other fd)
  | moveAssign {o other : O} {old fd : ℤ} (hne : o ≠ other) (ho : s.fd o = some old)
    (hother : s.fd other = some fd) :
    Stepped s (.moveAssign o other) ((s.closeFd o old).takeFrom o other fd)
  | assignSelf (o : O) : Stepped s (.moveAssign o o) s
  | reset {o : O} {old : ℤ} (newFd : ℤ) (ho : s.fd o = some old) :
    Stepped s (.reset o newFd) ((s.closeFd o old).handIn o newFd)
  | release {o : O} {fd : ℤ} (ho : s.fd o = some fd) :
    Stepped s (.release o) ((s.emit (.release o fd)).set o (some (-1)))
  | destroy {o : O} {fd : ℤ} (ho : s.fd o = some fd) :
    Stepped s (.destroy o) ((s.closeFd o fd).set o none)

theorem stepped_of_step {s t : Sockets O} {op : SocketOp O} (h : step s op = some t) :
    Stepped s op t := by
  cases op with
  | construct o fd =>
    cases ho : s.fd o with
    | none =>
      simp only [step, ho, Option.some.injEq] at h
      exact h ▸ .construct fd ho
    | some old => simp only [step, ho, reduceCtorEq] at h
  | moveConstruct o other =>
    cases ho : s.fd o with
    | some old => simp only [step, ho, reduceCtorEq] at h
    | none =>
      cases hother : s.fd other with
      | none => simp only [step, ho, hother, reduceCtorEq] at h
      | some fd =>
        simp only [step, ho, hother, Option.some.injEq] at h
        exact h ▸ .moveConstruct ho hother
  | moveAssign o other =>
    cases ho : s.fd o with
    | none => simp only [step, ho, reduceCtorEq] at h
    | some old =>
      cases hother : s.fd other with
      | none => simp only [step, ho, hother, reduceCtorEq] at h
      | some fd =>
        simp only [step, ho, hother] at h
        -- `operator=` tests for self-assignment first
        by_cases hne : o = other
        · subst hne
          rw [if_neg (fun h => h rfl), Option.some.injEq] at h
          exact h ▸ .assignSelf o
        · rw [if_pos hne, Option.some.injEq] at h
          exact h ▸ .moveAssign hne ho hother
  | reset o newFd =>
    cases ho : s.fd o with
    | none => simp only [step, ho, reduceCtorEq] at h
    | some old =>
      simp only [step, ho, Option.some.injEq] at h
      exact h ▸ .reset newFd ho
  | release o =>
    cases ho : s.fd o with
    | none => simp only [step, ho, reduceCtorEq] at h
    | some fd =>
      simp only [step, ho, Option.some.injEq] at h
      exact h ▸ .release ho
  | destroy o =>
    cases ho : s.fd o with
    | none => simp only [step, ho, reduceCtorEq] at h
    | some fd =>
      simp only [step, ho, Option.some.injEq] at h
      exact h ▸ .destroy ho

theorem owned_step {s t : Sockets O} {op : SocketOp O} (hs : Owned s) (hop : HandsInUnheld s op)
    (h : step s op = some t) : Owned t := by
  cases stepped_of_step h with
  | construct fd ho => exact hs.handIn (by simp [Idle, ho]) hop
  | moveConstruct ho hother =>
    apply hs.takeFrom _ (by simp [Idle, ho]) hother
    rintro rfl
    rw [ho] at hother
    cases hother
  | moveAssign hne ho hother =>
    apply (hs.closeFd ho).takeFrom hne (idle_closeFd ho)
    rw [fd_closeFd_of_ne s (Ne.symm hne), hother]
  | assignSelf o => exact hs
  | @reset o old newFd ho =>
    apply (hs.closeFd ho).handIn (idle_closeFd ho)
    intro hfd o'
    by_cases heq : o' = o
    · subst heq
      intro hheld
      have := idle_closeFd ho newFd hheld
      omega
    · rw [fd_closeFd_of_ne s heq]
      exact hop hfd o'
  | @release o fd ho =>
    by_cases hfd : 0 ≤ fd
    · exact hs.give ho trivial rfl hfd
    -- an object that holds no descriptor returns a negative number
    · have hidle : Idle (s.fd o) := by
        intro fd' hfd'
        rw [ho, Option.some.injEq] at hfd'
        omega
      apply (hs.emit_of_neg (e := .release o fd) (Int.not_le.mp hfd)).set hidle
      simp [Idle]
  | destroy ho => exact (hs.closeFd ho).set (idle_closeFd ho) (by simp [Idle])

/-- What one operation adds to the events, and that it closes only what its object holds. -/
theorem trace_step {s t : Sockets O} {op : SocketOp O} (h : step s op = some t) :
    ∃ events, t.trace = s.trace ++ events ∧
      ∀ o fd, .close o fd ∈ events → 0 ≤ fd ∧ s.fd o = some fd := by
  have hclose {o : O} {fd : ℤ} (ho : s.fd o = some fd) :
      ∃ events, (s.closeFd o fd).trace = s.trace ++ events ∧
        ∀ o' fd', .close o' fd' ∈ events → 0 ≤ fd' ∧ s.fd o' = some fd' := by
    rw [Sockets.closeFd]
    split_ifs with hfd
    · refine ⟨[.close o fd], rfl, fun o' fd' hmem => ?_⟩
      obtain ⟨rfl, rfl⟩ := SocketEvent.close.inj (List.mem_singleton.mp hmem)
      exact ⟨hfd, ho⟩
    · exact ⟨[], (List.append_nil _).symm, by simp⟩
  cases stepped_of_step h with
  | @construct o fd ho => exact ⟨[.handIn o fd], rfl, by simp⟩
  | moveConstruct ho hother => exact ⟨[], (List.append_nil _).symm, by simp⟩
  | moveAssign hne ho hother => exact hclose ho
  | assignSelf o => exact ⟨[], (List.append_nil _).symm, by simp⟩
  | @reset o old newFd ho =>
    obtain ⟨events, htrace, hevents⟩ := hclose ho
    refine ⟨events ++ [.handIn o newFd], ?_, fun o' fd' hmem => ?_⟩
    · rw [← List.append_assoc, ← htrace]
      rfl
    · exact hevents o' fd' (by simpa using hmem)
  | @release o fd ho => exact ⟨[.release o fd], rfl, by simp⟩
  | destroy ho => exact hclose ho

/-- In every program that hands in only descriptors no object holds: each descriptor has
at most one holder, `close` is called only by the holder, and once all objects are
destroyed the events about each descriptor are pairs of a hand-in and the one `close` or
`release` that ends it. -/
theorem closed_or_released_exactly_once {ops : List (SocketOp O)} {s : Sockets O}
    (hops : Meets step HandsInUnheld init ops) (hrun : exec step init ops = some s) :
    (∀ fd o o', 0 ≤ fd → s.fd o = some fd → s.fd o' = some fd → o = o') ∧
    (∀ op t, step s op = some t → ∃ events, t.trace = s.trace ++ events ∧
      ∀ o fd, .close o fd ∈ events → 0 ≤ fd ∧ s.fd o = some fd) ∧
    ((∀ o, s.fd o = none) → ∀ fd, 0 ≤ fd → Matched (s.about fd)) := by
  have hs : Owned s := invariant_of_meets (fun _ _ _ hs hop h => owned_step hs hop h)
    owned_init hops hrun
  refine ⟨fun fd o o' hfd ho ho' => ?_, fun op t h => trace_step h, fun hnone fd hfd => ?_⟩
  · exact (((hs.held ho hfd).2 o').mp ho').symm
  · apply hs.matched hfd
    intro o
    rw [hnone o]
    exact fun h => nomatch h

/-- A socket is moved and assigned to itself, the object it left is given another one that
is then released, and both are destroyed. -/
def moveAndRelease : List (SocketOp Bool) :=
  [.construct true 5, .moveConstruct false true, .moveAssign false false, .reset true 6,
    .release true, .destroy true, .destroy false]

theorem closed_or_released_exactly_once_moveAndRelease :
    ∃ s, exec step init moveAndRelease = some s ∧ s.about 5 = [.handIn true 5, .close false 5] ∧
      Matched (s.about 5) ∧ Matched (s.about 6) := by
  have hops : Meets step HandsInUnheld init moveAndRelease := by
    simp [moveAndRelease, Meets, HandsInUnheld, step, init, handIn, takeFrom, set, emit, closeFd]
  obtain ⟨s, hrun, hend⟩ : ∃ s, exec step init moveAndRelease = some s ∧
      (s.fd true, s.fd false, s.about 5) = (none, none, [.handIn true 5, .close false 5]) :=
    ⟨_, rfl, rfl⟩
  simp only [Prod.mk.injEq] at hend
  obtain ⟨-, -, hmatched⟩ := closed_or_released_exactly_once hops hrun
  have hnone : ∀ o, s.fd o = none := Bool.forall_bool.mpr ⟨hend.2.1, hend.1⟩
  exact ⟨s, hrun, hend.2.2, hmatched hnone 5 (by decide), hmatched hnone 6 (by decide)⟩

end Gateway.Network.Sockets
