import Gateway.Lib.Bytes
import Mathlib.Data.List.FinRange
import Mathlib.Data.List.GetD

/-!
# Session authentication (`include/auth/AuthSession.hpp`)

The server sends a nonce, the client answers with a token computed from the
nonce and the shared secret. Clock readings (`std::chrono::steady_clock`, in
nanoseconds) and the random bytes of `generate_nonce` are arguments, and the
lines printed on the console are not modelled.
-/

namespace Gateway.Auth

/-- `std::array<uint8_t, 8>` -/
abbrev Nonce := Fin 8 → UInt8

def hexDigit (n : UInt8) : UInt8 := if n < 10 then 48 + n else 87 + n

/-- `oss << std::hex << std::setw(2) << std::setfill('0') << (int)b` -/
def hexByte (b : UInt8) : Bytes := [hexDigit (b / 16), hexDigit (b % 16)]

def nonceToHex (n : Nonce) : Bytes := (List.ofFn n).flatMap hexByte

/-- `compute_token`: two passes of XOR with bytes of the secret, then hex. An
empty secret has no byte at `i % secret.size()`, and the source then divides by
zero: `none`. -/
def computeToken (nonce : Nonce) (secret : Bytes) : Option Bytes := do
  let result ← (List.finRange 8).mapM fun i : Fin 8 =>
    (secret[i.val % secret.length]?).map (nonce i ^^^ ·)
  let result ← (List.finRange 8).mapM fun i : Fin 8 =>
    (secret[(i.val + 3) % secret.length]?).map (result.getD i 0 ^^^ ·)
  some (result.flatMap hexByte)

inductive AuthState where
  | challengeSent
  | authenticated
  | rejected
  | timedOut
deriving DecidableEq, Repr

structure AuthSession where
  fd : ℤ
  secret : Bytes
  nonce : Nonce
  expectedToken : Bytes
  state : AuthState
  createdAt : ℤ
deriving DecidableEq

namespace AuthSession

/-- The constructor, with the nonce `generate_nonce` returned and the clock. -/
def new (fd : ℤ) (sharedSecret : Bytes) (nonce : Nonce) (now : ℤ) : Option AuthSession :=
  (computeToken nonce sharedSecret).map fun token =>
    ⟨fd, sharedSecret, nonce, token, .challengeSent, now⟩

/-- `duration_cast<seconds>(now - created_at_) >= timeout` -/
def isTimedOut (s : AuthSession) (timeout now : ℤ) : Bool :=
  timeout ≤ (now - s.createdAt).tdiv 1000000000

/-- `submit_token`, with the default timeout of five seconds. -/
def submitToken (s : AuthSession) (clientToken : Bytes) (now : ℤ) : Bool × AuthSession :=
  if s.state ≠ .challengeSent then (false, s)
  else if s.isTimedOut 5 now then (false, { s with state := .timedOut })
  else if clientToken = s.expectedToken then (true, { s with state := .authenticated })
  else (false, { s with state := .rejected })

end AuthSession

/-- A `submit_token` call on one session of a family. -/
structure Submit (ι : Type*) where
  session : ι
  token : Bytes
  now : ℤ

/-- A family of sessions after a sequence of calls, in any interleaving. -/
def submitAll {ι : Type*} [DecidableEq ι] (sessions : ι → AuthSession) (calls : List (Submit ι)) :
    ι → AuthSession :=
  calls.foldl (fun f c => Function.update f c.session ((f c.session).submitToken c.token c.now).2)
    sessions

/-! ## Tokens -/

/-- The byte two hex digits stand for. -/
def unhexByte (s : Bytes) : UInt8 :=
  let digit (c : UInt8) : UInt8 := if c < 58 then c - 48 else c - 87
  16 * digit (s.getD 0 0) + digit (s.getD 1 0)

theorem unhexByte_hexByte : ∀ b, unhexByte (hexByte b) = b := forall_byte (by decide +kernel)

theorem hexByte_injective : Function.Injective hexByte :=
  Function.LeftInverse.injective unhexByte_hexByte

theorem flatMap_hexByte_injective : Function.Injective fun l : Bytes => l.flatMap hexByte := by
  intro l l' h
  induction l generalizing l' with
  | nil =>
    cases l' with
    | nil => rfl
    | cons b l' => simp [hexByte] at h
  | cons a l ih =>
    cases l' with
    | nil => simp [hexByte] at h
    | cons b l' =>
      simp only [List.flatMap_cons] at h
      obtain ⟨hab, hl⟩ := List.append_inj h rfl
      rw [hexByte_injective hab, ih hl]

/-- The byte of a non-empty secret that the folds read at index `i`. -/
def secretByte (secret : Bytes) (i : ℕ) : UInt8 := secret.getD (i % secret.length) 0

theorem getElem?_secret {secret : Bytes} (h : secret ≠ []) (i : ℕ) :
    secret[i % secret.length]? = some (secretByte secret i) := by
  have hlt : i % secret.length < secret.length := Nat.mod_lt _ (List.length_pos_of_ne_nil h)
  rw [List.getElem?_eq_getElem hlt, secretByte, List.getD_eq_getElem _ _ hlt]

/-- Both passes together, for a non-empty secret of any length. -/
theorem computeToken_eq {secret : Bytes} (h : secret ≠ []) (nonce : Nonce) :
    computeToken nonce secret = some ((List.ofFn fun i =>
      nonce i ^^^ secretByte secret i ^^^ secretByte secret (i + 3)).flatMap hexByte) := by
  have hpass (f : Fin 8 → UInt8) : (List.finRange 8).mapM (fun i => some (f i)) =
      some (List.ofFn f) := by
    rw [List.ofFn_eq_map]
    exact List.mapM_pure
  simp only [computeToken, getElem?_secret h, Option.map_some, hpass, Option.bind_eq_bind,
    Option.bind_some]
  simp

/-- The token of a nonce is the token of no other nonce under the same secret. -/
theorem computeToken_injective {secret : Bytes} (h : secret ≠ []) :
    Function.Injective fun nonce => computeToken nonce secret := by
  intro n n' heq
  simp only [computeToken_eq h, Option.some.injEq] at heq
  have hfn := List.ofFn_injective (flatMap_hexByte_injective heq)
  funext i
  simpa using congrFun hfn i

end Gateway.Auth
