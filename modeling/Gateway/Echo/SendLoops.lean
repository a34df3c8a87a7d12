import Gateway.Lib.Libc

/-!
# Sending a whole buffer

`send_with_retry` of `src/phase18_resilience_audit.cpp` and `send_all` of
`src/phase2_tcp_echo_server.cpp`. What the kernel answers to each `send` is a script; a
buffer is shorter than `2 ^ 63` bytes, so that a count fits `ssize_t`.
-/

namespace Gateway.Echo

theorem drop_length_take {α : Type*} (l : List α) (n : ℕ) :
    l.drop (l.take n).length = l.drop n := by
  rw [List.drop_eq_drop_iff, List.length_take]
  omega

/-- The values of `errno` that the senders tell apart. -/
inductive Errno where
  | eintr
  | epipe
  | econnreset
  | other (code : ℕ)
deriving DecidableEq

/-- What one `send` does: the kernel accepts bytes of the slice it is given, at most all of
them, or the call fails. -/
inductive SendOutcome where
  | sent (count : ℕ)
  | failed (errno : Errno)
deriving DecidableEq

/-- How many bytes the kernel is ready to accept. -/
def SendOutcome.count : SendOutcome → ℕ
  | sent count => count
  | failed _ => 0

/-- What a call has done by the time it returns: its value, the bytes the kernel accepted,
the slices it was given as an offset and a length, the console output, and the part of the
script that was not used. -/
structure Sending where
  ret : ℤ
  accepted : Bytes := []
  slices : List (ℕ × ℕ) := []
  out : Bytes := []
  err : Bytes := []
  unused : List SendOutcome
deriving DecidableEq

namespace Sending

/-- A `send` of the slice at `total` that accepted `bytes` comes before the rest. -/
def afterSend (total len : ℕ) (bytes : Bytes) (rest : Sending) : Sending :=
  { rest with accepted := bytes ++ rest.accepted, slices := (total, len - total) :: rest.slices }

/-- A `send` that was interrupted comes before the rest. -/
def afterRetry (total len : ℕ) (rest : Sending) : Sending :=
  { rest with
    slices := (total, len - total) :: rest.slices
    out := ascii "  [RETRY] send() interrupted by EINTR signal, retrying...\n" ++ rest.out }

end Sending

section Senders
variable (strerror : Errno → Bytes)

/-- `perror(text)`, on the standard error stream. -/
def perror (text : Bytes) (errno : Errno) : Bytes := text ++ ascii ": " ++ strerror errno ++ [10]

/-- What `send_with_retry` does about a failed `send` other than an interrupted one. -/
def giveUp (errno : Errno) (slice : ℕ × ℕ) (unused : List SendOutcome) : Sending :=
  if errno = .epipe ∨ errno = .econnreset then
    { ret := -1, slices := [slice], unused
      out := ascii "  [NOTICE] Connection reset/broken pipe detected (" ++ strerror errno ++
        ascii ")\n" }
  else
    { ret := -1, slices := [slice], unused, err := perror strerror (ascii "send failed") errno }

/-- The loop of `send_with_retry` once `total_sent` bytes are out; `none` when the script ends
before the call returns. -/
def sendWithRetryFrom (buf : Bytes) (total : ℕ) (script : List SendOutcome) : Option Sending :=
  if total < buf.length then
    match script with
    | [] => none
    | .failed errno :: rest =>
      if errno = .eintr then
        (sendWithRetryFrom buf total rest).map (.afterRetry total buf.length)
      else some (giveUp strerror errno (total, buf.length - total) rest)
    | .sent count :: rest =>
      let bytes := (buf.drop total).take count
      if bytes.length = 0 then
        some { ret := total, slices := [(total, buf.length - total)], unused := rest }
      else
        (sendWithRetryFrom buf (total + bytes.length) rest).map
          (.afterSend total buf.length bytes)
  else some { ret := total, unused := script }

/-- `send_with_retry(fd, buf, len)` -/
def sendWithRetry (buf : Bytes) (script : List SendOutcome) : Option Sending :=
  sendWithRetryFrom strerror buf 0 script

/-- The loop of `send_all` once `total_sent` bytes are out. -/
def sendAllFrom (buf : Bytes) (total : ℕ) (script : List SendOutcome) : Option Sending :=
  if total < buf.length then
    match script with
    | [] => none
    | .failed errno :: rest =>
      some
        { ret := -1, slices := [(total, buf.length - total)], unused := rest
          err := perror strerror (ascii "[-] send failed in send_all") errno }
    | .sent count :: rest =>
      let bytes := (buf.drop total).take count
      if bytes.length = 0 then
        some { ret := 0, slices := [(total, buf.length - total)], unused := rest }
      else
        (sendAllFrom buf (total + bytes.length) rest).map (.afterSend total buf.length bytes)
  else some { ret := total, unused := script }

/-- `send_all(socket_fd, buffer, length)` -/
def sendAll (buf : Bytes) (script : List SendOutcome) : Option Sending :=
  sendAllFrom strerror buf 0 script

end Senders

/-! ## What a call delivers -/

section Delivery
variable {strerror : Errno → Bytes} {buf : Bytes} {total : ℕ} {script : List SendOutcome}

/-- Of the sends made when `total` bytes are out, one fails for good before `len` are. -/
def FailsBefore (len total : ℕ) (made : List SendOutcome) : Prop :=
  ∃ before errno after, made = before ++ .failed errno :: after ∧ errno ≠ .eintr ∧
    total + (before.map SendOutcome.count).sum < len

theorem not_failsBefore_nil (len total : ℕ) : ¬FailsBefore len total [] := by
  rintro ⟨before, errno, after, h, -⟩
  exact absurd h.symm (by simp)

theorem failsBefore_failed {errno : Errno} {len : ℕ} (hne : errno ≠ .eintr) (hlt : total < len)
    (rest : List SendOutcome) : FailsBefore len total (.failed errno :: rest) :=
  ⟨[], errno, rest, rfl, hne, by simpa using hlt⟩

/-- A `send` that does not fail for good only counts for the bytes it accepts. -/
theorem failsBefore_cons {outcome : SendOutcome} {len : ℕ} {made : List SendOutcome}
    (h : ∀ errno, outcome = .failed errno → errno = .eintr) :
    FailsBefore len total (outcome :: made) ↔ FailsBefore len (total + outcome.count) made := by
  constructor
  · rintro ⟨before, errno, after, heq, hne, hlt⟩
    cases before with
    | nil => exact absurd (h errno (List.cons.inj heq).1) hne
    | cons o before =>
      obtain ⟨rfl, hmade⟩ := List.cons.inj heq
      refine ⟨before, errno, after, hmade, hne, ?_⟩
      rw [List.map_cons, List.sum_cons] at hlt
      omega
  · rintro ⟨before, errno, after, rfl, hne, hlt⟩
    refine ⟨outcome :: before, errno, after, rfl, hne, ?_⟩
    rw [List.map_cons, List.sum_cons]
    omega

theorem failsBefore_full {len : ℕ} (h : len ≤ total) (made : List SendOutcome) :
    ¬FailsBefore len total made := by
  rintro ⟨before, errno, after, -, -, hlt⟩
  omega

/-- What holds of a call that had `total` bytes out, made the sends `made` and returned `r`. -/
structure Delivers (buf : Bytes) (total : ℕ) (made : List SendOutcome) (r : Sending) : Prop where
  accepted : r.accepted <+: buf.drop total
  count : 0 ≤ r.ret → r.ret = total + r.accepted.length
  full : 0 ≤ r.ret → r.ret = buf.length ∨ .sent 0 ∈ made
  failed : r.ret = -1 ↔ FailsBefore buf.length total made
  slices : ∀ slice ∈ r.slices, slice.1 + slice.2 = buf.length

theorem giveUp_ret (strerror : Errno → Bytes) (errno : Errno) (slice : ℕ × ℕ)
    (unused : List SendOutcome) :
    (giveUp strerror errno slice unused).ret = -1 ∧
      (giveUp strerror errno slice unused).accepted = [] ∧
      (giveUp strerror errno slice unused).slices = [slice] ∧
      (giveUp strerror errno slice unused).unused = unused := by
  unfold giveUp
  split <;> exact ⟨rfl, rfl, rfl, rfl⟩

namespace Delivers
variable {made : List SendOutcome} {r : Sending}

theorem of_done (h : total = buf.length) (unused : List SendOutcome) :
    Delivers buf total [] { ret := total, unused } where
  accepted := List.nil_prefix
  count _ := by simp
  full _ := Or.inl (by rw [h])
  failed := by
    have hno := not_failsBefore_nil buf.length total
    simp only [hno, iff_false]
    omega
  slices := by simp

theorem of_zero (h : total < buf.length) (unused : List SendOutcome) :
    Delivers buf total [.sent 0]
      { ret := total, slices := [(total, buf.length - total)], unused } where
  accepted := List.nil_prefix
  count _ := by simp
  full _ := Or.inr List.mem_cons_self
  failed := by
    have hno := not_failsBefore_nil buf.length (total + 0)
    rw [failsBefore_cons (by simp)]
    simp only [SendOutcome.count, hno, iff_false]
    omega
  slices := by
    simp only [List.mem_singleton, forall_eq]
    omega

theorem of_giveUp {errno : Errno} (h : total < buf.length) (hne : errno ≠ .eintr)
    (unused : List SendOutcome) :
    Delivers buf total [.failed errno]
      (giveUp strerror errno (total, buf.length - total) unused) := by
  obtain ⟨hret, haccepted, hslices, -⟩ :=
    giveUp_ret strerror errno (total, buf.length - total) unused
  refine ⟨?_, ?_, ?_, ?_, ?_⟩
  · rw [haccepted]
    exact List.nil_prefix
  · omega
  · omega
  · exact iff_of_true hret (failsBefore_failed hne h [])
  · rw [hslices]
    simp only [List.mem_singleton, forall_eq]
    omega

theorem after_retry (h : total < buf.length) (hr : Delivers buf total made r) :
    Delivers buf total (.failed .eintr :: made) (r.afterRetry total buf.length) where
  accepted := hr.accepted
  count := hr.count
  full hret := by
    rcases hr.full hret with h | h
    · exact Or.inl h
    · exact Or.inr (List.mem_cons_of_mem _ h)
  failed := by
    rw [failsBefore_cons (by simp)]
    exact hr.failed
  slices := by
    simp only [Sending.afterRetry, List.mem_cons, forall_eq_or_imp]
    exact ⟨by omega, hr.slices⟩

theorem after_send {count : ℕ} (h : total < buf.length)
    (hr : Delivers buf (total + ((buf.drop total).take count).length) made r) :
    Delivers buf total (.sent count :: made)
      (r.afterSend total buf.length ((buf.drop total).take count)) where
  accepted := by
    have haccepted := hr.accepted
    rw [← List.drop_drop, drop_length_take] at haccepted
    have h := (List.prefix_append_right_inj ((buf.drop total).take count)).mpr haccepted
    rwa [List.take_append_drop] at h
  count hret := by
    have hc := hr.count hret
    simp only [Sending.afterSend, List.length_append] at hc ⊢
    omega
  full hret := by
    rcases hr.full hret with h | h
    · exact Or.inl h
    · exact Or.inr (List.mem_cons_of_mem _ h)
  failed := by
    -- the kernel accepts less than it is ready for only at the end of the buffer
    rw [failsBefore_cons (by simp)]
    refine hr.failed.trans ?_
    rw [List.length_take, List.length_drop, SendOutcome.count]
    by_cases hcount : count ≤ buf.length - total
    · rw [min_eq_left hcount]
    · exact iff_of_false (failsBefore_full (by omega) made) (failsBefore_full (by omega) made)
  slices := by
    simp only [Sending.afterSend, List.mem_cons, forall_eq_or_imp]
    exact ⟨by omega, hr.slices⟩

end Delivers

theorem sendWithRetryFrom_delivers {r : Sending} (htotal : total ≤ buf.length)
    (h : sendWithRetryFrom strerror buf total script = some r) :
    ∃ made, script = made ++ r.unused ∧ Delivers buf total made r := by
  fun_induction sendWithRetryFrom strerror buf total script generalizing r
  case case1 => exact absurd h (by simp)
  case case2 total hlt rest ih =>
    obtain ⟨r', hr', rfl⟩ := Option.map_eq_some_iff.mp h
    obtain ⟨made, rfl, hd⟩ := ih htotal hr'
    exact ⟨.failed .eintr :: made, rfl, hd.after_retry hlt⟩
  case case3 total hlt errno rest hne =>
    obtain rfl := Option.some.inj h
    obtain ⟨-, -, -, hunused⟩ :=
      giveUp_ret strerror errno (total, buf.length - total) rest
    exact ⟨[.failed errno], by rw [hunused]; rfl, .of_giveUp hlt hne rest⟩
  case case4 total hlt count rest bytes hzero =>
    obtain rfl := Option.some.inj h
    have hcount : count = 0 := by
      rw [List.length_take, List.length_drop] at hzero
      omega
    subst hcount
    exact ⟨[.sent 0], rfl, .of_zero hlt rest⟩
  case case5 total hlt count rest bytes hpos ih =>
    obtain ⟨r', hr', rfl⟩ := Option.map_eq_some_iff.mp h
    have hle : total + bytes.length ≤ buf.length := by
      rw [List.length_take, List.length_drop]
      omega
    obtain ⟨made, rfl, hd⟩ := ih hle hr'
    exact ⟨.sent count :: made, rfl, hd.after_send hlt⟩
  case case6 rest total hge =>
    obtain rfl := Option.some.inj h
    exact ⟨[], rfl, .of_done (by omega) rest⟩

/-- Two calls on a buffer of `len` bytes delivered the same bytes with the same sends, and
either both report the whole buffer or neither does. -/
structure SameDelivery (len : ℕ) (r r' : Sending) : Prop where
  accepted : r.accepted = r'.accepted
  unused : r.unused = r'.unused
  full : r.ret = len ↔ r'.ret = len

theorem rel_map {R : Sending → Sending → Prop} {f : Sending → Sending}
    (hf : ∀ r r', R r r' → R (f r) (f r')) {x y : Option Sending} (h : Option.Rel R x y) :
    Option.Rel R (x.map f) (y.map f) := by
  cases h with
  | none => exact .none
  | some h => exact .some (hf _ _ h)

/-- Without interruptions the two loops go through the same sends. -/
theorem sendAllFrom_sameDelivery (h : .failed .eintr ∉ script) :
    Option.Rel (SameDelivery buf.length) (sendAllFrom strerror buf total script)
      (sendWithRetryFrom strerror buf total script) := by
  fun_induction sendAllFrom strerror buf total script
  case case1 total hlt =>
    rw [sendWithRetryFrom, if_pos hlt]
    exact .none
  case case2 total hlt errno rest =>
    have hne : errno ≠ .eintr := by
      rintro rfl
      exact h List.mem_cons_self
    obtain ⟨hret, haccepted, -, hunused⟩ :=
      giveUp_ret strerror errno (total, buf.length - total) rest
    rw [sendWithRetryFrom, if_pos hlt]
    simp only [hne, ↓reduceIte]
    refine .some ⟨haccepted.symm, hunused.symm, ?_⟩
    rw [hret]
  case case3 total hlt count rest bytes hzero =>
    simp only [bytes] at hzero
    rw [sendWithRetryFrom, if_pos hlt]
    simp only [hzero, ↓reduceIte]
    -- `send_all` returns 0 here and `send_with_retry` what is out: neither is the length
    refine .some ⟨rfl, rfl, iff_of_false ?_ ?_⟩
    · dsimp only
      omega
    · dsimp only
      omega
  case case4 total hlt count rest bytes hpos ih =>
    simp only [bytes] at hpos
    rw [sendWithRetryFrom, if_pos hlt]
    simp only [hpos, ↓reduceIte]
    apply rel_map _ (ih (fun hmem => h (List.mem_cons_of_mem _ hmem)))
    intro r r' hr
    exact ⟨congrArg (bytes ++ ·) hr.accepted, hr.unused, hr.full⟩
  case case5 rest total hge =>
    rw [sendWithRetryFrom.eq_def, if_neg hge]
    exact .some ⟨rfl, rfl, Iff.rfl⟩

/-- As long as every `send` accepts something and the script offers enough, `send_all` gets
everything out. -/
theorem sendAllFrom_of_progress (hpos : ∀ outcome ∈ script, 0 < outcome.count)
    (hsum : buf.length ≤ total + (script.map SendOutcome.count).sum)
    (htotal : total ≤ buf.length) :
    ∃ slices unused, sendAllFrom strerror buf total script =
        some { ret := buf.length, accepted := buf.drop total, slices, unused } ∧
      ∀ slice ∈ slices, slice.1 + slice.2 = buf.length := by
  fun_induction sendAllFrom strerror buf total script
  case case1 total hlt =>
    simp only [List.map_nil, List.sum_nil] at hsum
    omega
  case case2 total hlt errno rest =>
    exact absurd (hpos _ List.mem_cons_self) (by simp [SendOutcome.count])
  case case3 total hlt count rest bytes hzero =>
    have hcount : 0 < count := hpos _ List.mem_cons_self
    rw [List.length_take, List.length_drop] at hzero
    omega
  case case4 total hlt count rest bytes hne ih =>
    have hlen : bytes.length = min count (buf.length - total) := by
      rw [List.length_take, List.length_drop]
    rw [List.map_cons, List.sum_cons, SendOutcome.count] at hsum
    obtain ⟨slices, unused, hrest, hslices⟩ :=
      ih (fun outcome hmem => hpos outcome (List.mem_cons_of_mem _ hmem)) (by omega) (by omega)
    refine ⟨(total, buf.length - total) :: slices, unused, ?_, ?_⟩
    · have hdrop : bytes ++ buf.drop (total + bytes.length) = buf.drop total := by
        rw [← List.drop_drop, drop_length_take, List.take_append_drop]
      rw [hrest, Option.map_some, Sending.afterSend, hdrop]
    · simp only [List.mem_cons, forall_eq_or_imp]
      exact ⟨by omega, hslices⟩
  case case5 rest total hge =>
    have hfull : total = buf.length := by omega
    refine ⟨[], rest, ?_, by simp⟩
    rw [hfull, List.drop_length]

/-- Whatever the kernel answers, the bytes it accepted from `send_with_retry` are a prefix of
the buffer, the value returned says how long it is, and `-1` that a `send` failed for good;
without interruptions `send_all` delivers the same. -/
theorem sendWithRetry_gap_free (strerror : Errno → Bytes) (buf : Bytes)
    (script : List SendOutcome) :
    (∀ r, sendWithRetry strerror buf script = some r →
      ∃ made, script = made ++ r.unused ∧ r.accepted <+: buf ∧
        (0 ≤ r.ret → r.accepted = buf.take r.ret.toNat ∧ r.accepted.length = r.ret ∧
          (r.ret = buf.length ∨ .sent 0 ∈ made)) ∧
        (r.ret = -1 ↔ FailsBefore buf.length 0 made)) ∧
    (.failed .eintr ∉ script →
      (sendAll strerror buf script).map (·.accepted) =
          (sendWithRetry strerror buf script).map (·.accepted) ∧
        ((sendAll strerror buf script).map (·.ret) = some (buf.length : ℤ) ↔
          (sendWithRetry strerror buf script).map (·.ret) = some (buf.length : ℤ))) := by
  constructor
  · intro r hr
    obtain ⟨made, hscript, hd⟩ := sendWithRetryFrom_delivers (Nat.zero_le _) hr
    have haccepted : r.accepted <+: buf := hd.accepted
    refine ⟨made, hscript, haccepted, ?_, hd.failed⟩
    intro hret
    have hcount := hd.count hret
    have hlen : r.ret.toNat = r.accepted.length := by omega
    refine ⟨?_, by omega, hd.full hret⟩
    rw [hlen]
    exact List.prefix_iff_eq_take.mp haccepted
  · intro hscript
    have hrel : Option.Rel (SameDelivery buf.length) (sendAllFrom strerror buf 0 script)
        (sendWithRetryFrom strerror buf 0 script) := sendAllFrom_sameDelivery hscript
    rw [sendAll, sendWithRetry]
    generalize sendAllFrom strerror buf 0 script = x at hrel
    generalize sendWithRetryFrom strerror buf 0 script = y at hrel
    cases hrel with
    | none => exact ⟨rfl, Iff.rfl⟩
    | some h =>
      refine ⟨congrArg some h.accepted, ?_⟩
      simpa using h.full

/-- After an interrupted and a partial `send` the connection breaks; without the interruption
and the break, the two functions deliver the same. -/
theorem sendWithRetry_gap_free_broken_pipe :
    (∃ r, sendWithRetry (fun _ => []) [1, 2, 3] [.failed .eintr, .sent 2, .failed .epipe] =
        some r ∧ r.accepted <+: [1, 2, 3]) ∧
      .failed .eintr ∉ [SendOutcome.sent 2, .sent 0] ∧
      (sendAll (fun _ => []) [1, 2, 3] [.sent 2, .sent 0]).map (·.accepted) =
        (sendWithRetry (fun _ => []) [1, 2, 3] [.sent 2, .sent 0]).map (·.accepted) := by
  refine ⟨?_, by decide, ?_⟩
  · obtain ⟨r, hr⟩ : ∃ r, sendWithRetry (fun _ => []) [1, 2, 3]
        [.failed .eintr, .sent 2, .failed .epipe] = some r := ⟨_, rfl⟩
    obtain ⟨made, -, haccepted, -⟩ := (sendWithRetry_gap_free _ _ _).1 r hr
    exact ⟨r, hr, haccepted⟩
  · exact ((sendWithRetry_gap_free _ _ _).2 (by decide)).1

end Delivery

end Gateway.Echo
