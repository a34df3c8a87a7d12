import Gateway.Auth.AuthSession

/-!
# One answer per session, and no replay between sessions
-/

namespace Gateway.Auth
open AuthSession

theorem isTimedOut_iff (s : AuthSession) (now : ℤ) :
    s.isTimedOut 5 now = true ↔ 5000000000 ≤ now - s.createdAt := by
  rw [isTimedOut, decide_eq_true_iff]
  rcases le_total 0 (now - s.createdAt) with hpos | hneg
  · rw [Int.tdiv_eq_ediv_of_nonneg hpos]
    omega
  -- a clock behind the creation time truncates towards zero
  · have htrunc : 0 ≤ (-(now - s.createdAt)).tdiv 1000000000 :=
      Int.tdiv_nonneg (by omega) (by decide)
    rw [Int.neg_tdiv] at htrunc
    omega

/-- Everything a call can do: nothing to a session that was answered, otherwise
one of the three verdicts. -/
theorem submitToken_cases (s : AuthSession) (token : Bytes) (now : ℤ) :
    (s.state ≠ .challengeSent ∧ s.submitToken token now = (false, s)) ∨
    (s.state = .challengeSent ∧ 5000000000 ≤ now - s.createdAt ∧
      s.submitToken token now = (false, { s with state := .timedOut })) ∨
    (s.state = .challengeSent ∧ now - s.createdAt < 5000000000 ∧ token = s.expectedToken ∧
      s.submitToken token now = (true, { s with state := .authenticated })) ∨
    (s.state = .challengeSent ∧ now - s.createdAt < 5000000000 ∧ token ≠ s.expectedToken ∧
      s.submitToken token now = (false, { s with state := .rejected })) := by
  unfold submitToken
  split_ifs with hstate hlate htoken
  · exact Or.inl ⟨hstate, rfl⟩
  all_goals have hs := not_not.mp hstate
  · exact Or.inr (Or.inl ⟨hs, (isTimedOut_iff s now).mp hlate, rfl⟩)
  all_goals have hearly := lt_of_not_ge (mt (isTimedOut_iff s now).mpr hlate)
  · exact Or.inr (Or.inr (Or.inl ⟨hs, hearly, htoken, rfl⟩))
  · exact Or.inr (Or.inr (Or.inr ⟨hs, hearly, htoken, rfl⟩))

/-- After a call the session has its verdict. -/
theorem submitToken_state_ne (s : AuthSession) (token : Bytes) (now : ℤ) :
    (s.submitToken token now).2.state ≠ .challengeSent := by
  obtain ⟨hs, h⟩ | ⟨-, -, h⟩ | ⟨-, -, -, h⟩ | ⟨-, -, -, h⟩ := submitToken_cases s token now
  · rwa [h]
  all_goals simp [h]

theorem submitToken_of_answered {s : AuthSession} (hs : s.state ≠ .challengeSent) (token : Bytes)
    (now : ℤ) : s.submitToken token now = (false, s) := if_pos hs

theorem submitToken_expectedToken (s : AuthSession) (token : Bytes) (now : ℤ) :
    (s.submitToken token now).2.expectedToken = s.expectedToken := by
  obtain ⟨-, h⟩ | ⟨-, -, h⟩ | ⟨-, -, -, h⟩ | ⟨-, -, -, h⟩ := submitToken_cases s token now
  all_goals rw [h]

theorem token_eq_of_submitToken {s : AuthSession} {token : Bytes} {now : ℤ}
    (h : (s.submitToken token now).1 = true) : token = s.expectedToken := by
  obtain ⟨-, h'⟩ | ⟨-, -, h'⟩ | ⟨-, -, htoken, -⟩ | ⟨-, -, -, h'⟩ := submitToken_cases s token now
  · simp [h'] at h
  · simp [h'] at h
  · exact htoken
  · simp [h'] at h

variable {ι : Type*} [DecidableEq ι]

/-- The first call on a session decides; calls on other sessions and later calls
leave it alone. -/
theorem submitAll_apply (sessions : ι → AuthSession) (calls : List (Submit ι)) (i : ι) :
    submitAll sessions calls i =
      match calls.find? (·.session = i) with
      | none => sessions i
      | some c => ((sessions i).submitToken c.token c.now).2 := by
  induction calls generalizing sessions with
  | nil => rfl
  | cons c calls ih =>
    change submitAll (Function.update sessions c.session _) calls i = _
    rw [ih]
    by_cases hc : c.session = i
    · subst hc
      rw [List.find?_cons_of_pos (by simp), Function.update_self]
      cases calls.find? (·.session = c.session) with
      | none => rfl
      | some c' =>
        dsimp only
        rw [submitToken_of_answered (submitToken_state_ne _ _ _)]
    · rw [List.find?_cons_of_neg (by simpa using hc), Function.update_of_ne (Ne.symm hc)]

theorem submitAll_expectedToken (sessions : ι → AuthSession) (calls : List (Submit ι)) (i : ι) :
    (submitAll sessions calls i).expectedToken = (sessions i).expectedToken := by
  rw [submitAll_apply]
  cases calls.find? (·.session = i) with
  | none => rfl
  | some c => exact submitToken_expectedToken _ _ _

/-- A session some call was made on is answered. -/
theorem submitAll_state_ne (sessions : ι → AuthSession) {calls : List (Submit ι)} {c : Submit ι}
    (hc : c ∈ calls) : (submitAll sessions calls c.session).state ≠ .challengeSent := by
  rw [submitAll_apply]
  cases hfind : calls.find? (·.session = c.session) with
  | none => exact absurd (List.find?_eq_none.mp hfind c hc) (by simp)
  | some c' => exact submitToken_state_ne _ _ _

/-- Calls after one on the session do not change it. -/
theorem submitAll_append (sessions : ι → AuthSession) {before after : List (Submit ι)}
    {c : Submit ι} (hc : c ∈ before) :
    submitAll sessions (before ++ after) c.session = submitAll sessions before c.session := by
  rw [submitAll_apply, submitAll_apply, List.find?_append]
  cases hfind : before.find? (·.session = c.session) with
  | none => exact absurd (List.find?_eq_none.mp hfind c hc) (by simp)
  | some c' => rfl

/-- A wrong token is refused and authenticates nobody. -/
theorem submitToken_of_ne {s : AuthSession} {token : Bytes} (htoken : token ≠ s.expectedToken)
    (now : ℤ) :
    (s.submitToken token now).1 = false ∧
      ((s.submitToken token now).2.state = .authenticated → s.state = .authenticated) := by
  obtain ⟨-, h⟩ | ⟨-, -, h⟩ | ⟨-, -, heq, -⟩ | ⟨-, -, -, h⟩ := submitToken_cases s token now
  · exact ⟨by rw [h], by rw [h]; exact id⟩
  · simp [h]
  · exact absurd heq htoken
  · simp [h]

theorem first_call_of_authenticated {sessions : ι → AuthSession} {calls : List (Submit ι)} {i : ι}
    (hstart : (sessions i).state = .challengeSent)
    (h : (submitAll sessions calls i).state = .authenticated) :
    ∃ c, calls.find? (·.session = i) = some c ∧ c.now - (sessions i).createdAt < 5000000000 ∧
      c.token = (sessions i).expectedToken := by
  rw [submitAll_apply] at h
  cases hfind : calls.find? (·.session = i) with
  | none =>
    rw [hfind, hstart] at h
    exact absurd h (by decide)
  | some c =>
    rw [hfind] at h
    refine ⟨c, rfl, ?_⟩
    obtain ⟨hs, -⟩ | ⟨-, -, h'⟩ | ⟨-, hearly, htoken, -⟩ | ⟨-, -, -, h'⟩ :=
      submitToken_cases (sessions i) c.token c.now
    · exact absurd hstart hs
    · simp [h'] at h
    · exact ⟨hearly, htoken⟩
    · simp [h'] at h

/-- Sessions under one non-empty secret with distinct nonces, called in any
interleaving and at any times: authentication is decided by the first call, within
five seconds and with the session's own token; no session accepts a token that
another one expects or accepted; and after its first call a session is fixed. -/
theorem no_cross_session_replay {secret : Bytes} (hsecret : secret ≠ []) (fd : ι → ℤ)
    {nonce : ι → Nonce} (hnonce : Function.Injective nonce) (createdAt : ι → ℤ) :
    ∃ sessions : ι → AuthSession,
      (∀ i, AuthSession.new (fd i) secret (nonce i) (createdAt i) = some (sessions i)) ∧
      ∀ calls : List (Submit ι),
        (∀ i, (submitAll sessions calls i).state = .authenticated →
          ∃ c, calls.find? (·.session = i) = some c ∧ c.now - createdAt i < 5000000000 ∧
            computeToken (nonce i) secret = some c.token) ∧
        (∀ i j token, i ≠ j →
          ((sessions i).expectedToken = token ∨
            ∃ calls' now, ((submitAll sessions calls' i).submitToken token now).1 = true) →
          ∀ now, ((submitAll sessions calls j).submitToken token now).1 = false ∧
            (((submitAll sessions calls j).submitToken token now).2.state = .authenticated →
              (submitAll sessions calls j).state = .authenticated)) ∧
        ∀ before c after, calls = before ++ c :: after →
          submitAll sessions calls c.session = submitAll sessions (before ++ [c]) c.session ∧
          ∀ token now, ((submitAll sessions calls c.session).submitToken token now).1 = false := by
  choose token htoken using fun i => (⟨_, computeToken_eq hsecret (nonce i)⟩ :
    ∃ token, computeToken (nonce i) secret = some token)
  refine ⟨fun i => ⟨fd i, secret, nonce i, token i, .challengeSent, createdAt i⟩, ?_, ?_⟩
  · intro i
    rw [AuthSession.new, htoken i]
    rfl
  intro calls
  refine ⟨?_, ?_, ?_⟩
  · intro i hauth
    obtain ⟨c, hfind, hearly, heq⟩ := first_call_of_authenticated rfl hauth
    exact ⟨c, hfind, hearly, by rw [htoken i, heq]⟩
  · intro i j t hij ht now
    have ht' : t = token i := by
      rcases ht with ht | ⟨calls', now', ht⟩
      · exact ht.symm
      · exact (token_eq_of_submitToken ht).trans (submitAll_expectedToken _ _ _)
    apply submitToken_of_ne
    rw [submitAll_expectedToken, ht']
    -- equal tokens would make the nonces equal
    intro heq
    apply hij (hnonce (computeToken_injective hsecret _))
    dsimp only at heq ⊢
    rw [htoken i, htoken j, heq]
  · rintro before c after rfl
    constructor
    · rw [List.append_cons]
      exact submitAll_append _ (List.mem_append_right before List.mem_cons_self)
    · intro t now
      have hc : c ∈ before ++ c :: after := List.mem_append_right before List.mem_cons_self
      rw [submitToken_of_answered (submitAll_state_ne _ hc)]

/-- Two sessions under the secret "k". -/
theorem no_cross_session_replay_two :
    ascii "k" ≠ [] ∧
      Function.Injective (fun (b : Bool) (_ : Fin 8) => (if b then 1 else 0 : UInt8)) ∧
      ∃ sessions : Bool → AuthSession,
        ∀ calls : List (Submit Bool), (submitAll sessions calls true).state = .authenticated →
          ∃ c, calls.find? (·.session = true) = some c ∧ c.now - 0 < 5000000000 := by
  have hsecret : ascii "k" ≠ [] := by decide
  have hnonce : Function.Injective
      (fun (b : Bool) (_ : Fin 8) => (if b then 1 else 0 : UInt8)) := by decide
  obtain ⟨sessions, -, h⟩ :=
    no_cross_session_replay hsecret (fun _ => 4) hnonce fun _ => 0
  refine ⟨hsecret, hnonce, sessions, fun calls hauth => ?_⟩
  obtain ⟨c, hfind, hearly, -⟩ := (h calls).1 true hauth
  exact ⟨c, hfind, hearly⟩

end Gateway.Auth
