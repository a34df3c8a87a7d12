import Gateway.Lib.Bytes

/-!
# The C library functions the sources call

`stoi` with the exceptions of `std::stoi`, C strings, and the dotted-quad text
form of an IPv4 address.
-/

namespace Gateway

/-- `s.c_str()` read as a C string: everything before the first NUL. -/
def cStr (s : Bytes) : Bytes := s.takeWhile (· != 0)

/-- What follows a NUL is not part of the C string. -/
theorem cStr_append_of_mem {a : Bytes} (h : 0 ∈ a) (b : Bytes) : cStr (a ++ b) = cStr a := by
  induction a with
  | nil => exact absurd h (by simp)
  | cons c a ih =>
    by_cases hc : c = 0
    · simp [cStr, hc]
    · have hmem : 0 ∈ a := (List.mem_cons.mp h).resolve_left (Ne.symm hc)
      simp only [cStr] at ih
      simp [cStr, hc, ih hmem]

theorem cStr_append_nul (s t : Bytes) : cStr (s ++ 0 :: t) = cStr s := by
  induction s with
  | nil => rfl
  | cons c s ih =>
    simp only [cStr, List.cons_append, List.takeWhile_cons] at ih ⊢
    split_ifs with hc
    · rw [ih]
    · rfl

def isDigit (c : UInt8) : Bool := 48 ≤ c && c ≤ 57

/-- `isspace` in the C locale. -/
def isSpace (c : UInt8) : Bool := c == 32 || (9 ≤ c && c ≤ 13)

/-- The number a string of decimal digits denotes. -/
def decimal (digits : Bytes) : ℕ := digits.foldl (fun n c => 10 * n + (c.toNat - 48)) 0

/-- What `std::stoi` throws. -/
inductive StoiError where
  | invalidArgument
  | outOfRange
deriving DecidableEq, Repr

/-- The optional sign of a number and the text after it. -/
def readSign : Bytes → Bool × Bytes
  | 45 :: s => (true, s)
  | 43 :: s => (false, s)
  | s => (false, s)

/-- `std::stoi(s)`: leading white space and a sign are read, what follows the
digits is ignored. -/
def stoi (s : Bytes) : Except StoiError ℤ :=
  let (negative, rest) := readSign (s.dropWhile isSpace)
  let digits := rest.takeWhile isDigit
  if digits.isEmpty then .error .invalidArgument
  else
    let n : ℤ := if negative then -decimal digits else decimal digits
    if -2 ^ 31 ≤ n ∧ n < 2 ^ 31 then .ok n else .error .outOfRange

/-- The sign and the digits that the functions of the `strtol` family read. -/
def readInteger (s : Bytes) : Except StoiError (Bool × ℕ) :=
  let (negative, rest) := readSign (s.dropWhile isSpace)
  let digits := rest.takeWhile isDigit
  if digits.isEmpty then .error .invalidArgument else .ok (negative, decimal digits)

/-- `std::stoll(s)` -/
def stoll (s : Bytes) : Except StoiError ℤ := do
  let (negative, magnitude) ← readInteger s
  let n : ℤ := if negative then -magnitude else magnitude
  if -2 ^ 63 ≤ n ∧ n < 2 ^ 63 then .ok n else .error .outOfRange

/-- `std::stoul(s)`: a minus sign negates the unsigned value. -/
def stoul (s : Bytes) : Except StoiError UInt64 := do
  let (negative, magnitude) ← readInteger s
  if magnitude < 2 ^ 64 then .ok (if negative then -.ofNat magnitude else .ofNat magnitude)
  else .error .outOfRange

theorem toNat_ofInt64 (n : ℤ) : (UInt64.ofInt n).toNat = (n % 2 ^ 64).toNat := by
  rw [UInt64.ofInt, UInt64.toNat_ofNat']
  omega

theorem toNat_ofInt16 (n : ℤ) : (UInt16.ofInt n).toNat = (n % 2 ^ 16).toNat := by
  rw [UInt16.ofInt, UInt16.toNat_ofNat']
  omega

/-- A digit is neither white space nor a sign, a slash, a dot or NUL. -/
theorem isDigit_ne {c : UInt8} (h : isDigit c) :
    isSpace c = false ∧ c ≠ 45 ∧ c ≠ 43 ∧ c ≠ 47 ∧ c ≠ 46 ∧ c ≠ 0 := by
  have hall : ∀ c, isDigit c = true →
      isSpace c = false ∧ c ≠ 45 ∧ c ≠ 43 ∧ c ≠ 47 ∧ c ≠ 46 ∧ c ≠ 0 :=
    forall_byte (by decide +kernel)
  exact hall c h

theorem readSign_digits {digits : Bytes} (hne : digits ≠ []) (hd : ∀ c ∈ digits, isDigit c) :
    readSign (digits.dropWhile isSpace) = (false, digits) := by
  obtain ⟨c, cs, rfl⟩ := List.exists_cons_of_ne_nil hne
  obtain ⟨hspace, hminus, hplus, -⟩ := isDigit_ne (hd c List.mem_cons_self)
  rw [List.dropWhile_cons, if_neg (by simp [hspace])]
  unfold readSign
  split <;> simp_all

theorem stoi_digits {digits : Bytes} (hne : digits ≠ []) (hd : ∀ c ∈ digits, isDigit c)
    (hlt : decimal digits < 2 ^ 31) : stoi digits = .ok (decimal digits) := by
  have htake : digits.takeWhile isDigit = digits := List.takeWhile_eq_self_iff.mpr hd
  have hempty : digits.isEmpty = false := by simpa using hne
  simp only [stoi, readSign_digits hne hd, htake, hempty, Bool.false_eq_true, ↓reduceIte]
  rw [if_pos ⟨by omega, by exact_mod_cast hlt⟩]

theorem readInteger_digits {digits : Bytes} (hne : digits ≠ []) (hd : ∀ c ∈ digits, isDigit c) :
    readInteger digits = .ok (false, decimal digits) := by
  have htake : digits.takeWhile isDigit = digits := List.takeWhile_eq_self_iff.mpr hd
  have hempty : digits.isEmpty = false := by simpa using hne
  simp only [readInteger, readSign_digits hne hd, htake, hempty, Bool.false_eq_true, ↓reduceIte]

theorem stoll_digits {digits : Bytes} (hne : digits ≠ []) (hd : ∀ c ∈ digits, isDigit c)
    (hlt : decimal digits < 2 ^ 63) : stoll digits = .ok (decimal digits) := by
  simp only [stoll, readInteger_digits hne hd, bind, Except.bind, Bool.false_eq_true, ↓reduceIte]
  rw [if_pos ⟨by omega, by exact_mod_cast hlt⟩]

theorem stoul_digits {digits : Bytes} (hne : digits ≠ []) (hd : ∀ c ∈ digits, isDigit c)
    (hlt : decimal digits < 2 ^ 64) : stoul digits = .ok (.ofNat (decimal digits)) := by
  simp only [stoul, readInteger_digits hne hd, bind, Except.bind, Bool.false_eq_true, ↓reduceIte]
  rw [if_pos hlt]

/-- One byte in decimal, without leading zeros. -/
def octet (b : UInt8) : Bytes :=
  (if 100 ≤ b then [48 + b / 100] else []) ++ (if 10 ≤ b then [48 + b / 10 % 10] else []) ++
    [48 + b % 10]

/-- The dotted-quad text of an address given in host byte order. -/
def dottedQuad (a : BitVec 32) : Bytes :=
  [46].intercalate [octet (htonl a).b0, octet (htonl a).b1, octet (htonl a).b2, octet (htonl a).b3]

/-- What the callers rely on: the address that a dotted quad denotes is the one
`inet_pton(AF_INET, ..)` stores, in network byte order. -/
def ReadsDottedQuads (inetPton : Bytes → Option Net32) : Prop :=
  ∀ a : BitVec 32, inetPton (dottedQuad a) = some (htonl a)

/-- What the callers rely on: `inet_ntop(AF_INET, ..)` writes the four bytes of an address
in order. -/
def RendersDottedQuads (inetNtop : Net32 → Bytes) : Prop :=
  ∀ n, inetNtop n = [46].intercalate [octet n.b0, octet n.b1, octet n.b2, octet n.b3]

/-- The documented behaviour of `inet_ntop(AF_INET, n, ..)`. -/
def inetNtop (n : Net32) : Bytes :=
  [46].intercalate [octet n.b0, octet n.b1, octet n.b2, octet n.b3]

theorem octet_digits (b : UInt8) : ∀ c ∈ octet b, isDigit c := by
  have h : ∀ b, (octet b).all isDigit = true := forall_byte (by decide +kernel)
  exact List.all_eq_true.mp (h b)

theorem mem_dottedQuad {a : BitVec 32} {c : UInt8} (h : c ∈ dottedQuad a) :
    isDigit c = true ∨ c = 46 := by
  simp only [dottedQuad, List.intercalate_cons_cons, List.intercalate_singleton, List.mem_append,
    List.mem_singleton] at h
  rcases h with (h | h) | (h | h) | (h | h) | h
  all_goals first | exact Or.inl (octet_digits _ c h) | exact Or.inr h

theorem cStr_dottedQuad (a : BitVec 32) : cStr (dottedQuad a) = dottedQuad a := by
  apply takeWhile_bne_of_notMem
  intro hc
  rcases mem_dottedQuad hc with h | h
  · exact (isDigit_ne h).2.2.2.2.2 rfl
  · exact absurd h (by decide)

theorem slash_notMem_dottedQuad (a : BitVec 32) : 47 ∉ dottedQuad a := by
  intro hc
  rcases mem_dottedQuad hc with h | h
  · exact (isDigit_ne h).2.2.2.1 rfl
  · exact absurd h (by decide)

/-- One field of a dotted quad: one to three digits, no leading zero, at most 255. -/
def readOctet (s : Bytes) : Option UInt8 :=
  if s ≠ [] ∧ s.length ≤ 3 ∧ s.all isDigit ∧ (s.head? = some 48 → s.length = 1) ∧ decimal s ≤ 255
  then some (.ofNat (decimal s))
  else none

/-- The documented behaviour of `inet_pton(AF_INET, s, ..)`. -/
def inetPton (s : Bytes) : Option Net32 :=
  match s.splitOn 46 with
  | [a, b, c, d] => do some ⟨← readOctet a, ← readOctet b, ← readOctet c, ← readOctet d⟩
  | _ => none

theorem readOctet_octet : ∀ b, readOctet (octet b) = some b := forall_byte (by decide +kernel)

theorem inetPton_dottedQuad : ReadsDottedQuads inetPton := by
  intro a
  have hdot : ∀ b, (46 : UInt8) ∉ octet b := fun b h =>
    (isDigit_ne (octet_digits b 46 h)).2.2.2.2.1 rfl
  have hsplit : (dottedQuad a).splitOn 46 =
      [octet (htonl a).b0, octet (htonl a).b1, octet (htonl a).b2, octet (htonl a).b3] := by
    apply List.splitOn_intercalate
    · simp [hdot]
    · simp
  simp [inetPton, hsplit, readOctet_octet]

theorem isDigit_iff {c : UInt8} : isDigit c = true ↔ 48 ≤ c.toNat ∧ c.toNat ≤ 57 := by
  simp [isDigit, UInt8.le_iff_toNat_le]

theorem decimal_concat (s : Bytes) (c : UInt8) :
    decimal (s ++ [c]) = 10 * decimal s + (c.toNat - 48) := by
  simp [decimal]

/-- A number without a leading zero is positive. -/
theorem decimal_pos {s : Bytes} (hs : ∀ c ∈ s, isDigit c = true) (hne : s ≠ [])
    (hzero : s.head? ≠ some 48) : 0 < decimal s := by
  induction s using List.reverseRecOn with
  | nil => exact absurd rfl hne
  | append_singleton s c ih =>
    rw [decimal_concat]
    cases s with
    | nil =>
      have hc := isDigit_iff.mp (hs c (by simp))
      have hne : c.toNat ≠ 48 := by
        intro h
        have hc : c = 48 := UInt8.toNat_inj.mp h
        exact hzero (by rw [hc]; rfl)
      omega
    | cons d s =>
      have := ih (fun c hc => hs c (List.mem_append_left _ hc)) (by simp) (by simpa using hzero)
      omega

/-- A number without leading zeros determines its digits. -/
theorem decimal_inj {s t : Bytes} (hs : ∀ c ∈ s, isDigit c = true)
    (ht : ∀ c ∈ t, isDigit c = true) (hs0 : s.head? ≠ some 48) (ht0 : t.head? ≠ some 48)
    (h : decimal s = decimal t) : s = t := by
  induction s using List.reverseRecOn generalizing t with
  | nil =>
    by_contra hne
    have := decimal_pos ht (Ne.symm hne) ht0
    rw [← h] at this
    exact absurd this (by decide)
  | append_singleton s c ih =>
    cases t using List.reverseRecOn with
    | nil =>
      have := decimal_pos hs (by simp) hs0
      rw [h] at this
      exact absurd this (by decide)
    | append_singleton t d =>
      have hc := isDigit_iff.mp (hs c (by simp))
      have hd := isDigit_iff.mp (ht d (by simp))
      rw [decimal_concat, decimal_concat] at h
      have hcd : c = d := UInt8.toNat_inj.mp (by omega)
      have hst : s = t := by
        apply ih
        · exact fun c hc => hs c (List.mem_append_left _ hc)
        · exact fun c hc => ht c (List.mem_append_left _ hc)
        · exact fun h => hs0 (by rw [List.head?_append, h, Option.some_or])
        · exact fun h => ht0 (by rw [List.head?_append, h, Option.some_or])
        · omega
      rw [hcd, hst]

/-- What is read as a byte is its decimal text. -/
theorem readOctet_eq_some_iff {s : Bytes} {b : UInt8} : readOctet s = some b ↔ s = octet b := by
  have hread {s : Bytes} (h : readOctet s = some b) : s ≠ [] ∧ (∀ c ∈ s, isDigit c = true) ∧
      (s.head? = some 48 → s = [48]) ∧ decimal s = b.toNat := by
    obtain ⟨⟨hne, -, hdigits, hzero, hle⟩, hb⟩ := Option.ite_none_right_eq_some.mp h
    refine ⟨hne, List.all_eq_true.mp hdigits, fun h48 => ?_, ?_⟩
    · obtain ⟨c, rfl⟩ := List.length_eq_one_iff.mp (hzero h48)
      exact congrArg (fun c => [c]) (Option.some.inj h48)
    · rw [← Option.some.inj hb, UInt8.toNat_ofNat_of_lt' (Nat.lt_succ_of_le hle)]
  constructor
  · intro h
    obtain ⟨hne, hs, hs48, hsb⟩ := hread h
    obtain ⟨hne', ht, ht48, htb⟩ := hread (readOctet_octet b)
    have heq := hsb.trans htb.symm
    by_cases hs0 : s.head? = some 48 <;> by_cases ht0 : (octet b).head? = some 48
    · rw [hs48 hs0, ht48 ht0]
    · have := decimal_pos ht hne' ht0
      rw [← heq, hs48 hs0] at this
      exact absurd this (by decide)
    · have := decimal_pos hs hne hs0
      rw [heq, ht48 ht0] at this
      exact absurd this (by decide)
    · exact decimal_inj hs ht hs0 ht0 heq
  · rintro rfl
    exact readOctet_octet b

/-- The assumption that `inet_pton(AF_INET, ..)` accepts the dotted quads and nothing
else. -/
def ReadsExactlyDottedQuads (inetPton : Bytes → Option Net32) : Prop :=
  ∀ s n, inetPton s = some n ↔ ∃ a, s = dottedQuad a ∧ n = htonl a

theorem inetPton_eq_some_iff : ReadsExactlyDottedQuads inetPton := by
  intro s n
  constructor
  · intro h
    rw [inetPton] at h
    split at h
    · rename_i a b c d hsplit
      simp only [bind, Option.bind_eq_some_iff, readOctet_eq_some_iff] at h
      obtain ⟨b0, rfl, b1, rfl, b2, rfl, b3, rfl, h⟩ := h
      obtain rfl := Option.some.inj h
      refine ⟨ntohl ⟨b0, b1, b2, b3⟩, ?_, ?_⟩
      · rw [dottedQuad, htonl_ntohl, ← hsplit, List.intercalate_splitOn]
      · rw [htonl_ntohl]
    · cases h
  · rintro ⟨a, rfl, rfl⟩
    exact inetPton_dottedQuad a

end Gateway
