import Gateway.Auth.Replay
import Mathlib.Data.Nat.Prime.Basic

/-!
# What a token tells about the secret

The two XOR passes of `compute_token` add to the nonce a mask that depends on the secret
alone. A nonce and its token give the mask away, and a secret whose length divides the
offset of the second pass has no mask at all.
-/

namespace Gateway.Auth
open AuthSession

/-- What the secret adds to a nonce. -/
def mask (secret : Bytes) : Nonce :=
  fun i => secretByte secret i ^^^ secretByte secret (i + 3)

theorem computeToken_eq_mask {secret : Bytes} (h : secret ≠ []) (nonce : Nonce) :
    computeToken nonce secret = some (nonceToHex fun i => nonce i ^^^ mask secret i) := by
  simp only [computeToken_eq h, nonceToHex, mask, UInt8.xor_assoc]

theorem nonceToHex_injective : Function.Injective nonceToHex :=
  fun _ _ h => List.ofFn_injective (flatMap_hexByte_injective h)

/-- The bytes a token stands for. -/
def hexToNonce (token : Bytes) : Nonce := fun i => unhexByte (token.drop (2 * i))

theorem drop_flatMap_hexByte (l : Bytes) (i : ℕ) :
    (l.flatMap hexByte).drop (2 * i) = (l.drop i).flatMap hexByte := by
  induction i generalizing l with
  | zero => rfl
  | succ i ih =>
    cases l with
    | nil => simp
    | cons b l => exact ih l

theorem hexToNonce_nonceToHex (nonce : Nonce) : hexToNonce (nonceToHex nonce) = nonce := by
  have hinv (b : UInt8) (rest : Bytes) : unhexByte (hexByte b ++ rest) = b :=
    unhexByte_hexByte b
  funext i
  have hlt : i.val < (List.ofFn nonce).length := by simp
  rw [hexToNonce, nonceToHex, drop_flatMap_hexByte, List.drop_eq_getElem_cons hlt,
    List.flatMap_cons, hinv, List.getElem_ofFn]

/-! ## An eavesdropper -/

/-- From a nonce, its token and another nonce, `forge` finds the other token, whatever
the secret. -/
def Forges (forge : Nonce → Bytes → Nonce → Bytes) : Prop :=
  ∀ secret : Bytes, secret ≠ [] → ∀ n₁ n₂ : Nonce,
    (computeToken n₁ secret).map (fun token => forge n₁ token n₂) = computeToken n₂ secret

/-- The XOR of the two nonces and the token. -/
def xorForge (n₁ : Nonce) (token : Bytes) (n₂ : Nonce) : Bytes :=
  nonceToHex fun i => n₂ i ^^^ (n₁ i ^^^ hexToNonce token i)

theorem forges_iff {forge : Nonce → Bytes → Nonce → Bytes} :
    Forges forge ↔ ∀ secret : Bytes, secret ≠ [] → ∀ n₁ n₂ : Nonce,
      forge n₁ (nonceToHex fun i => n₁ i ^^^ mask secret i) n₂ =
        nonceToHex fun i => n₂ i ^^^ mask secret i := by
  apply forall₂_congr
  intro secret hsecret
  simp [computeToken_eq_mask hsecret]

theorem forges_xorForge : Forges xorForge := by
  rw [forges_iff]
  intro secret hsecret n₁ n₂
  have hcancel (a b : UInt8) : a ^^^ (a ^^^ b) = b := by
    rw [← UInt8.xor_assoc, UInt8.xor_self, UInt8.zero_xor]
  simp only [xorForge, hexToNonce_nonceToHex, hcancel]

theorem sniffed_token_gives_next : ¬ ¬ ∃ forge, Forges forge :=
  not_not.mpr ⟨xorForge, forges_xorForge⟩

/-- Two secrets of one length that a token tells apart. -/
theorem mask_cons_ne {n : ℕ} (h : 3 % (n + 1) ≠ 0) :
    mask (1 :: List.replicate n 0) ≠ mask (0 :: List.replicate n 0) := by
  intro heq
  obtain ⟨j, hj⟩ := Nat.exists_eq_succ_of_ne_zero h
  have hzero (b : UInt8) : mask (b :: List.replicate n 0) 0 = b := by
    simp [mask, secretByte, hj]
  have := congrFun heq 0
  rw [hzero, hzero] at this
  exact absurd this (by decide)

/-- One sniffed handshake gives the token of every other session, by the XOR of what was
seen with the fresh nonce. No part of it is enough: without the first nonce, without the
sniffed token or without the fresh nonce, the fresh token cannot be computed. -/
theorem forgery_needs_both_nonces_and_token :
    Forges xorForge ∧
    (¬ ∃ f : Bytes → Nonce → Bytes, Forges fun _ token n₂ => f token n₂) ∧
    (¬ ∃ f : Nonce → Nonce → Bytes, Forges fun n₁ _ n₂ => f n₁ n₂) ∧
    ¬ ∃ f : Nonce → Bytes → Bytes, Forges fun n₁ token _ => f n₁ token := by
  have hmask : mask [1, 0] ≠ mask [0, 0] := mask_cons_ne (n := 1) (by decide)
  refine ⟨forges_xorForge, ?_, ?_, ?_⟩
  · -- the nonces that differ by the masks have one token under the two secrets
    rintro ⟨f, hf⟩
    rw [forges_iff] at hf
    have h₁ := hf [1, 0] (by simp) (mask [1, 0]) 0
    have h₀ := hf [0, 0] (by simp) (mask [0, 0]) 0
    simp only [UInt8.xor_self] at h₁ h₀
    have heq := nonceToHex_injective (h₁.symm.trans h₀)
    apply hmask
    funext i
    simpa using congrFun heq i
  · rintro ⟨f, hf⟩
    rw [forges_iff] at hf
    have heq := nonceToHex_injective
      ((hf [1, 0] (by simp) 0 0).symm.trans (hf [0, 0] (by simp) 0 0))
    apply hmask
    funext i
    simpa using congrFun heq i
  · rintro ⟨f, hf⟩
    rw [forges_iff] at hf
    have heq := nonceToHex_injective
      ((hf [0] (by simp) 0 0).symm.trans (hf [0] (by simp) 0 1))
    have := congrFun heq 0
    simp [mask, secretByte] at this

/-! ## Secrets that do not enter the token -/

/-- A client that answers the nonce in time and knows no more than the length of the
secret is let in by every session. -/
def AlwaysAdmitted (length : ℕ) (client : Nonce → Bytes) : Prop :=
  ∀ (fd : ℤ) (secret : Bytes) (nonce : Nonce) (created now : ℤ) (s : AuthSession),
    secret.length = length → AuthSession.new fd secret nonce created = some s →
    now - created < 5000000000 →
    (s.submitToken (client nonce) now).2.state = .authenticated

/-- The token depends on the secret: two secrets of the length differ in it on every nonce,
and no client gets in without the secret. -/
def SecretMatters (length : ℕ) : Prop :=
  (∀ nonce : Nonce, ∃ secret secret' : Bytes, secret.length = length ∧ secret'.length = length ∧
    computeToken nonce secret ≠ computeToken nonce secret') ∧
  ¬ ∃ client, AlwaysAdmitted length client

theorem state_submitToken_new {fd : ℤ} {secret : Bytes} {nonce : Nonce} {created now : ℤ}
    {s : AuthSession} (hs : AuthSession.new fd secret nonce created = some s)
    (hnow : now - created < 5000000000) (token : Bytes) :
    (s.submitToken token now).2.state = .authenticated ↔
      computeToken nonce secret = some token := by
  obtain ⟨hstate, hcreated, hexpected⟩ : s.state = .challengeSent ∧ s.createdAt = created ∧
      computeToken nonce secret = some s.expectedToken := by
    obtain ⟨expected, hexpected, rfl⟩ := Option.map_eq_some_iff.mp hs
    exact ⟨rfl, rfl, hexpected⟩
  rw [hexpected, Option.some.injEq]
  obtain ⟨h, -⟩ | ⟨-, hlate, -⟩ | ⟨-, -, htoken, h⟩ | ⟨-, -, htoken, h⟩ :=
    submitToken_cases s token now
  · exact absurd hstate h
  · rw [hcreated] at hlate
    omega
  · rw [h]
    simp [htoken]
  · simp [h, Ne.symm htoken]

/-- A length that divides the offset of the second pass: both passes read the same byte. -/
theorem mask_eq_zero {secret : Bytes} (h : secret.length ∣ 3) (i : Fin 8) :
    mask secret i = 0 := by
  have hmod : (i.val + 3) % secret.length = i.val % secret.length := by
    rw [Nat.add_mod, Nat.mod_eq_zero_of_dvd h, add_zero, Nat.mod_mod]
  simp [mask, secretByte, hmod]

/-- The token depends on the secret exactly for secrets that are not one or three bytes
long. -/
theorem secretMatters_iff (length : ℕ) (hlength : 1 ≤ length) :
    SecretMatters length ↔ length ≠ 1 ∧ length ≠ 3 := by
  rw [← not_or, ← Nat.dvd_prime Nat.prime_three, Nat.dvd_iff_mod_eq_zero]
  obtain ⟨n, rfl⟩ := Nat.exists_eq_succ_of_ne_zero (by omega : length ≠ 0)
  constructor
  · intro ⟨hdiffer, _⟩ hzero
    obtain ⟨secret, secret', hlen, hlen', hne⟩ := hdiffer 0
    apply hne
    have hdvd {s : Bytes} (h : s.length = n.succ) : s.length ∣ 3 :=
      h ▸ Nat.dvd_of_mod_eq_zero hzero
    simp only [computeToken_eq_mask (List.ne_nil_of_length_eq_add_one hlen),
      computeToken_eq_mask (List.ne_nil_of_length_eq_add_one hlen'),
      mask_eq_zero (hdvd hlen), mask_eq_zero (hdvd hlen')]
  · intro hne
    have hmask := mask_cons_ne hne
    have htoken (nonce : Nonce) : computeToken nonce (1 :: List.replicate n 0) ≠
        computeToken nonce (0 :: List.replicate n 0) := by
      rw [computeToken_eq_mask (List.cons_ne_nil _ _), computeToken_eq_mask (List.cons_ne_nil _ _)]
      intro heq
      have hxor := nonceToHex_injective (Option.some.inj heq)
      apply hmask
      funext i
      simpa using congrFun hxor i
    refine ⟨fun nonce => ⟨_, _, ?_, ?_, htoken nonce⟩, ?_⟩
    · simp
    · simp
    · rintro ⟨client, hclient⟩
      -- one answer to the zero nonce would be the token under both secrets
      have hanswer (b : UInt8) : computeToken 0 (b :: List.replicate n 0) = some (client 0) := by
        obtain ⟨s, hnew⟩ : ∃ s, AuthSession.new 0 (b :: List.replicate n 0) 0 0 = some s := by
          rw [AuthSession.new, computeToken_eq_mask (List.cons_ne_nil _ _), Option.map_some]
          exact ⟨_, rfl⟩
        exact (state_submitToken_new hnew (by decide) _).mp
          (hclient 0 _ 0 0 0 _ (by simp) hnew (by decide))
      exact htoken 0 ((hanswer 1).trans (hanswer 0).symm)

theorem secretMatters_twelve : SecretMatters 12 :=
  (secretMatters_iff 12 (by decide)).mpr (by decide)

/-- With a secret of one byte the nonce itself, in hex, is the answer. -/
theorem not_secretMatters_one : ¬ SecretMatters 1 ∧ AlwaysAdmitted 1 nonceToHex := by
  have hmask {secret : Bytes} (h : secret.length = 1) (nonce : Nonce) :
      computeToken nonce secret = some (nonceToHex nonce) := by
    simp [computeToken_eq_mask (List.ne_nil_of_length_eq_add_one h), mask_eq_zero (h ▸ one_dvd 3)]
  have hadmitted : AlwaysAdmitted 1 nonceToHex := by
    intro fd secret nonce created now s hlen hs hnow
    exact (state_submitToken_new hs hnow _).mpr (hmask hlen nonce)
  exact ⟨fun h => h.2 ⟨nonceToHex, hadmitted⟩, hadmitted⟩

end Gateway.Auth
