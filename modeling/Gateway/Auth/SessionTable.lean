import Gateway.Auth.Forgery
import Gateway.Lib.Steps

/-!
# The sessions of a gateway (`src/phase13_auth_system.cpp`)

One session a descriptor, in the map `sessions` of `test_session_manager`. A descriptor that is
used again gets a new session in the place of the old one. The clients answer with a token of
any origin, or compute it from the nonce of the session with a secret of their own.
-/

namespace Gateway.Auth
open AuthSession Steps

/-- `generate_nonce`, with the number that the generator returned. -/
def generateNonce (raw : UInt64) : Nonce :=
  fun i => ((raw >>> (.ofNat i * 8)) &&& 0xFF).toUInt8

/-- `std::unordered_map<int, std::unique_ptr<AuthSession>>` -/
abbrev SessionTable := ℤ → Option AuthSession

inductive GatewayAct where
  /-- `sessions[fd] = std::make_unique<AuthSession>(fd, SHARED_SECRET)` -/
  | connect (fd : ℤ) (raw : UInt64) (now : ℤ)
  /-- `sessions[fd]->submit_token(token)` -/
  | submit (fd : ℤ) (token : Bytes) (now : ℤ)
  /-- `sessions[fd]->submit_token(compute_token(sessions[fd]->nonce(), clientSecret))` -/
  | answer (fd : ℤ) (clientSecret : Bytes) (now : ℤ)
deriving DecidableEq

/-- One action of the gateway. A descriptor without a session has a null pointer in the map, and
an empty secret has no token. -/
def gatewayStep (sharedSecret : Bytes) (sessions : SessionTable) : GatewayAct → Option SessionTable
  | .connect fd raw now => do
    let session ← AuthSession.new fd sharedSecret (generateNonce raw) now
    some (Function.update sessions fd session)
  | .submit fd token now => do
    let session ← sessions fd
    some (Function.update sessions fd (session.submitToken token now).2)
  | .answer fd clientSecret now => do
    let session ← sessions fd
    let token ← computeToken session.nonce clientSecret
    some (Function.update sessions fd (session.submitToken token now).2)

/-! ## The nonces -/

theorem toNat_generateNonce (raw : UInt64) (i : Fin 8) :
    (generateNonce raw i).toNat = raw.toNat / 256 ^ i.val % 256 := by
  have hshift : (UInt64.ofNat i * 8).toNat % 64 = 8 * i.val := by
    have hi := i.isLt
    have height : (8 : UInt64).toNat = 8 := rfl
    rw [UInt64.toNat_mul, UInt64.toNat_ofNat', height]
    omega
  have hmask : (0xFF : UInt64).toNat = 2 ^ 8 - 1 := rfl
  have hpow : 2 ^ (8 * i.val) = 256 ^ i.val := by rw [pow_mul]; rfl
  rw [generateNonce, UInt64.toNat_toUInt8, UInt64.toNat_and, hmask, Nat.and_two_pow_sub_one_eq_mod,
    UInt64.toNat_shiftRight, hshift, Nat.shiftRight_eq_div_pow, Nat.mod_mod, hpow]

/-- Different numbers of the generator are different nonces. -/
theorem generateNonce_injective : Function.Injective generateNonce := by
  intro raw raw' h
  -- the numbers agree byte by byte, from the lowest up
  have hbytes : ∀ k, k ≤ 8 → raw.toNat % 256 ^ k = raw'.toNat % 256 ^ k := by
    intro k
    induction k with
    | zero =>
      intro _
      rw [pow_zero, Nat.mod_one, Nat.mod_one]
    | succ k ih =>
      intro hk
      have hbyte := congrFun h ⟨k, hk⟩
      rw [← UInt8.toNat_inj, toNat_generateNonce, toNat_generateNonce] at hbyte
      rw [Nat.mod_pow_succ, Nat.mod_pow_succ, ih (by omega), hbyte]
  have hall := hbytes 8 le_rfl
  have hlt := raw.toNat_lt
  have hlt' := raw'.toNat_lt
  apply UInt64.toNat_inj.mp
  omega

/-! ## What an action does to a session -/

namespace GatewayAct

/-- The action is an answer on the descriptor. -/
def answers (fd : ℤ) : GatewayAct → Bool
  | .connect .. => false
  | .submit fd' .. | .answer fd' .. => fd' = fd

def now : GatewayAct → ℤ
  | .connect _ _ now | .submit _ _ now | .answer _ _ now => now

/-- The token that the action hands in to a session with the nonce. -/
def token? (nonce : Nonce) : GatewayAct → Option Bytes
  | .connect .. => none
  | .submit _ token _ => some token
  | .answer _ clientSecret _ => computeToken nonce clientSecret

/-- What the action hands in is the answer to the challenge: the token itself, or one computed
with a secret that adds the same to every nonce. -/
def Knows (sharedSecret : Bytes) (raw : UInt64) : GatewayAct → Prop
  | .connect .. => False
  | .submit _ token _ => computeToken (generateNonce raw) sharedSecret = some token
  | .answer _ clientSecret _ => mask clientSecret = mask sharedSecret

end GatewayAct

open GatewayAct

section Steps
variable {sharedSecret : Bytes} {sessions sessions' : SessionTable} {a : GatewayAct} {fd : ℤ}

theorem gatewayStep_answer {s : AuthSession} (hs : sessions fd = some s)
    (ha : a.answers fd = true) (h : gatewayStep sharedSecret sessions a = some sessions') :
    ∃ token, a.token? s.nonce = some token ∧
      sessions' fd = some (s.submitToken token a.now).2 := by
  cases a with
  | connect fd' raw now => exact absurd ha (by simp [answers])
  | submit fd' token now =>
    obtain rfl : fd' = fd := by simpa [answers] using ha
    simp only [gatewayStep, hs, Option.bind_eq_bind, Option.bind_some, Option.some.injEq] at h
    refine ⟨token, rfl, ?_⟩
    rw [← h, Function.update_self]
    rfl
  | answer fd' clientSecret now =>
    obtain rfl : fd' = fd := by simpa [answers] using ha
    simp only [gatewayStep, hs, Option.bind_eq_bind, Option.bind_some] at h
    obtain ⟨token, htoken, h⟩ := Option.bind_eq_some_iff.mp h
    refine ⟨token, htoken, ?_⟩
    rw [← Option.some.inj h, Function.update_self]
    rfl

/-- An action that is neither a connection nor an answer on the descriptor. -/
theorem gatewayStep_frame (ha : a.answers fd = false)
    (hconnect : ∀ raw now, a ≠ .connect fd raw now)
    (h : gatewayStep sharedSecret sessions a = some sessions') : sessions' fd = sessions fd := by
  cases a with
  | connect fd' raw now =>
    have hne : fd ≠ fd' := by
      intro heq
      exact hconnect raw now (by rw [heq])
    obtain ⟨s, -, h⟩ := Option.bind_eq_some_iff.mp h
    rw [← Option.some.inj h, Function.update_of_ne hne]
  | submit fd' token now =>
    have hne : fd ≠ fd' := by
      intro heq
      exact absurd ha (by simp [answers, heq])
    obtain ⟨s, -, h⟩ := Option.bind_eq_some_iff.mp h
    rw [← Option.some.inj h, Function.update_of_ne hne]
  | answer fd' clientSecret now =>
    have hne : fd ≠ fd' := by
      intro heq
      exact absurd ha (by simp [answers, heq])
    obtain ⟨s, -, h⟩ := Option.bind_eq_some_iff.mp h
    obtain ⟨token, -, h⟩ := Option.bind_eq_some_iff.mp h
    rw [← Option.some.inj h, Function.update_of_ne hne]

/-- A session that has its verdict keeps it as long as the descriptor is not used again. -/
theorem gatewayStep_answered {s : AuthSession} (hs : sessions fd = some s)
    (hstate : s.state ≠ .challengeSent) (hconnect : ∀ raw now, a ≠ .connect fd raw now)
    (h : gatewayStep sharedSecret sessions a = some sessions') : sessions' fd = some s := by
  cases ha : a.answers fd with
  | false => rw [gatewayStep_frame ha hconnect h, hs]
  | true =>
    obtain ⟨token, -, hsession⟩ := gatewayStep_answer hs ha h
    rw [hsession, submitToken_of_answered hstate]

end Steps

/-! ## What a run does to a session -/

section Runs
variable {sharedSecret : Bytes} {sessions sessions' : SessionTable} {acts : List GatewayAct} {fd : ℤ}

theorem exec_answered {s : AuthSession} (hs : sessions fd = some s)
    (hstate : s.state ≠ .challengeSent) (hconnect : ∀ raw now, .connect fd raw now ∉ acts)
    (h : exec (gatewayStep sharedSecret) sessions acts = some sessions') :
    sessions' fd = some s := by
  induction acts generalizing sessions with
  | nil => rw [← Option.some.inj h, hs]
  | cons a acts ih =>
    obtain ⟨next, hstep, h⟩ := exec_cons.mp h
    have hother (raw : UInt64) (now : ℤ) : a ≠ .connect fd raw now := by
      intro heq
      exact hconnect raw now (heq ▸ List.mem_cons_self)
    apply ih (gatewayStep_answered hs hstate hother hstep) _ h
    intro raw now hmem
    exact hconnect raw now (List.mem_cons_of_mem a hmem)

/-- The first answer decides, whatever happens on other descriptors and afterwards. -/
theorem exec_session {s : AuthSession} (hs : sessions fd = some s)
    (hconnect : ∀ raw now, .connect fd raw now ∉ acts)
    (h : exec (gatewayStep sharedSecret) sessions acts = some sessions') :
    match acts.find? (answers fd) with
    | none => sessions' fd = some s
    | some a => ∃ token, a.token? s.nonce = some token ∧
        sessions' fd = some (s.submitToken token a.now).2 := by
  induction acts generalizing sessions with
  | nil =>
    change sessions' fd = some s
    rw [← Option.some.inj h, hs]
  | cons a acts ih =>
    obtain ⟨next, hstep, h⟩ := exec_cons.mp h
    have hother (raw : UInt64) (now : ℤ) : a ≠ .connect fd raw now := by
      intro heq
      exact hconnect raw now (heq ▸ List.mem_cons_self)
    have hlater (raw : UInt64) (now : ℤ) : .connect fd raw now ∉ acts := by
      intro hmem
      exact hconnect raw now (List.mem_cons_of_mem a hmem)
    cases ha : a.answers fd with
    | false =>
      rw [List.find?_cons_of_neg (by simp [ha])]
      apply ih _ hlater h
      rw [gatewayStep_frame ha hother hstep, hs]
    | true =>
      rw [List.find?_cons_of_pos ha]
      obtain ⟨token, htoken, hsession⟩ := gatewayStep_answer hs ha hstep
      exact ⟨token, htoken, exec_answered hsession (submitToken_state_ne _ _ _) hlater h⟩

end Runs

/-! ## Who is let in -/

theorem computeToken_inj_iff {sharedSecret : Bytes} (h : sharedSecret ≠ []) {raw raw' : UInt64} :
    computeToken (generateNonce raw') sharedSecret = computeToken (generateNonce raw) sharedSecret ↔
      raw' = raw := by
  constructor
  · intro heq
    exact generateNonce_injective (computeToken_injective h heq)
  · intro heq
    rw [heq]

/-- Another secret gives the token of the challenge exactly when it has the same mask. -/
theorem computeToken_eq_iff_mask {sharedSecret clientSecret : Bytes} (h : sharedSecret ≠ [])
    (hclient : clientSecret ≠ []) (nonce : Nonce) :
    computeToken nonce sharedSecret = computeToken nonce clientSecret ↔
      mask clientSecret = mask sharedSecret := by
  rw [computeToken_eq_mask h, computeToken_eq_mask hclient, Option.some.injEq]
  constructor
  · intro heq
    funext i
    have hi := congrFun (nonceToHex_injective heq) i
    exact (UInt8.xor_right_inj (nonce i)).mp hi.symm
  · intro heq
    rw [heq]

theorem knows_iff {sharedSecret : Bytes} (h : sharedSecret ≠ []) {raw : UInt64} {a : GatewayAct}
    {token : Bytes} (htoken : a.token? (generateNonce raw) = some token) :
    computeToken (generateNonce raw) sharedSecret = some token ↔ a.Knows sharedSecret raw := by
  cases a with
  | connect fd raw' now => exact absurd htoken (by simp [token?])
  | submit fd token' now =>
    obtain rfl := Option.some.inj htoken
    rfl
  | answer fd clientSecret now =>
    have hclient : clientSecret ≠ [] := by
      intro hempty
      have hnone : computeToken (generateNonce raw) [] = none := rfl
      rw [hempty, token?, hnone] at htoken
      exact absurd htoken (by simp)
    change computeToken (generateNonce raw) clientSecret = some token at htoken
    rw [← htoken, computeToken_eq_iff_mask h hclient]
    rfl

theorem fields_new {fd : ℤ} {secret : Bytes} {nonce : Nonce} {created : ℤ} {s : AuthSession}
    (hs : AuthSession.new fd secret nonce created = some s) :
    s.state = .challengeSent ∧ s.createdAt = created ∧ s.nonce = nonce := by
  obtain ⟨token, -, heq⟩ := Option.map_eq_some_iff.mp hs
  rw [← heq]
  exact ⟨rfl, rfl, rfl⟩

/-- The first answer to a challenge counts when it is in time and right. -/
theorem authenticated_submitToken_new {fd : ℤ} {secret : Bytes} {nonce : Nonce} {created : ℤ}
    {s : AuthSession} (hs : AuthSession.new fd secret nonce created = some s) (token : Bytes)
    (now : ℤ) :
    (s.submitToken token now).2.state = .authenticated ↔
      now - created < 5000000000 ∧ computeToken nonce secret = some token := by
  obtain ⟨hstate, hcreated, -⟩ := fields_new hs
  constructor
  · intro hauth
    have hearly : now - created < 5000000000 := by
      obtain ⟨h, -⟩ | ⟨-, -, h⟩ | ⟨-, hearly, -⟩ | ⟨-, hearly, -⟩ := submitToken_cases s token now
      · exact absurd hstate h
      · rw [h] at hauth
        exact absurd hauth (by simp)
      all_goals rwa [hcreated] at hearly
    exact ⟨hearly, (state_submitToken_new hs hearly token).mp hauth⟩
  · intro h
    exact (state_submitToken_new hs h.1 token).mpr h.2

/-- In every run, a descriptor's session is authenticated exactly when the first answer since its
last connection came within five seconds and is the answer to its challenge; it waits as long as
there was none. A token that belongs to another number of the generator, such as one that the
same descriptor's last session accepted, is no answer. -/
theorem session_admits_iff (sharedSecret : Bytes) (fd : ℤ) (raw : UInt64) (created : ℤ)
    (before after : List GatewayAct) (sessions : SessionTable)
    (hrun : exec (gatewayStep sharedSecret) (fun _ => none)
      (before ++ .connect fd raw created :: after) = some sessions)
    (hlast : ∀ raw' now, .connect fd raw' now ∉ after) :
    ∃ s, sessions fd = some s ∧
      (s.state = .authenticated ↔ ∃ a, after.find? (answers fd) = some a ∧
        a.now - created < 5000000000 ∧ a.Knows sharedSecret raw) ∧
      (s.state = .challengeSent ↔ ∀ a ∈ after, a.answers fd = false) ∧
      ∀ raw' token now, after.find? (answers fd) = some (.submit fd token now) →
        computeToken (generateNonce raw') sharedSecret = some token →
        (s.state = .authenticated ↔ now - created < 5000000000 ∧ raw' = raw) := by
  obtain ⟨start, -, hrun⟩ := exec_append.mp hrun
  obtain ⟨connected, hstep, hrun⟩ := exec_cons.mp hrun
  obtain ⟨s, hnew, hstep⟩ := Option.bind_eq_some_iff.mp hstep
  -- with an empty secret the token of the constructor is not defined
  have hsecret : sharedSecret ≠ [] := by
    intro hempty
    have hnone : AuthSession.new fd [] (generateNonce raw) created = none := rfl
    rw [hempty, hnone] at hnew
    exact absurd hnew (by simp)
  have hs : connected fd = some s := by
    rw [← Option.some.inj hstep, Function.update_self]
  have hsession := exec_session hs hlast hrun
  obtain ⟨hstate, -, hnonce⟩ := fields_new hnew
  -- only the first answer counts: the state never goes back to challenge-sent
  cases hfirst : after.find? (answers fd) with
  | none =>
    rw [hfirst] at hsession
    refine ⟨s, hsession, ?_, ?_, ?_⟩
    · simp [hstate]
    · simpa [hstate] using List.find?_eq_none.mp hfirst
    · simp
  | some a =>
    rw [hfirst] at hsession
    obtain ⟨token, htoken, hsession⟩ := hsession
    rw [hnonce] at htoken
    have hverdict : (s.submitToken token a.now).2.state = .authenticated ↔
        a.now - created < 5000000000 ∧ a.Knows sharedSecret raw := by
      rw [← knows_iff hsecret htoken]
      exact authenticated_submitToken_new hnew token a.now
    refine ⟨_, hsession, ?_, ?_, ?_⟩
    · simpa using hverdict
    · have hmem := List.mem_of_find?_eq_some hfirst
      have hanswers := List.find?_some hfirst
      constructor
      · intro h
        exact absurd h (submitToken_state_ne s token a.now)
      · intro h
        rw [h a hmem] at hanswers
        exact absurd hanswers (by simp)
    · intro raw' token' now ha htoken'
      obtain rfl := Option.some.inj ha
      rw [hverdict]
      change _ ∧ computeToken (generateNonce raw) sharedSecret = some token' ↔ _
      rw [← htoken', eq_comm, computeToken_inj_iff hsecret]
      rfl

/-- The token that a session accepted is tried again when the descriptor has another session. -/
def replayed : List GatewayAct :=
  [.connect 6 1 0, .answer 6 (ascii "k!") 1, .connect 6 2 2, .connect 7 3 3,
    .submit 6 ((computeToken (generateNonce 1) (ascii "k!")).getD []) 4]

theorem session_admits_iff_replayed :
    ∃ sessions, exec (gatewayStep (ascii "k!")) (fun _ => none) replayed = some sessions ∧
      ∃ s, sessions 6 = some s ∧ s.state ≠ .authenticated := by
  obtain ⟨sessions, hrun⟩ : ∃ sessions,
      exec (gatewayStep (ascii "k!")) (fun _ => none) replayed = some sessions := ⟨_, rfl⟩
  obtain ⟨s, hs, -, -, hreplay⟩ := session_admits_iff (ascii "k!") 6 2 2
    (replayed.take 2) (replayed.drop 3) sessions hrun (by simp [replayed])
  refine ⟨sessions, hrun, s, hs, ?_⟩
  rw [ne_eq, hreplay 1 _ 4 rfl (by decide +kernel)]
  decide

end Gateway.Auth
