import Gateway.Config.HotReload

/-!
# What `validate` sees of the numbers in a file

The port is cast to 16 bits and the size of the thread pool is read as an unsigned number
before `validate` looks at them, so a number outside of the range may arrive inside it.
-/

namespace Gateway.Config

/-- The number that a text denotes: digits, with a sign or without. -/
def signedDecimal (v : Bytes) : Option ℤ :=
  let (negative, digits) := readSign v
  if digits ≠ [] ∧ digits.all isDigit then
    some (if negative then -decimal digits else decimal digits)
  else none

/-- The number a file gives to a key, or the default without an assignment. -/
def Written (kv : KvStore) (key : Bytes) (default n : ℤ) : Prop :=
  match kv key with
  | none => n = default
  | some v => signedDecimal v = some n

/-- The numbers that a gateway can run with. -/
def InRange (port threads capacity rate : ℤ) : Prop :=
  (1 ≤ port ∧ port ≤ 65535) ∧ (1 ≤ threads ∧ threads ≤ 128) ∧ 1 ≤ capacity ∧ 1 ≤ rate

/-! ## Conversions -/

/-- A number is its own text after the spaces are dropped. -/
theorem dropWhile_isSpace_of_readSign {v digits : Bytes} {negative : Bool}
    (hsign : readSign v = (negative, digits)) (hne : digits ≠ [])
    (hdigits : ∀ c ∈ digits, isDigit c = true) : v.dropWhile isSpace = v := by
  unfold readSign at hsign
  split at hsign
  · rfl
  · rfl
  · obtain ⟨-, rfl⟩ := Prod.mk.inj hsign
    obtain ⟨c, s, rfl⟩ := List.exists_cons_of_ne_nil hne
    have hc := isDigit_ne (hdigits c List.mem_cons_self)
    exact List.dropWhile_cons_of_neg (by simp [hc.1])

/-- A signed number is read to its end. -/
theorem readInteger_of_signedDecimal {v : Bytes} {n : ℤ} (h : signedDecimal v = some n) :
    ∃ negative m, readInteger v = .ok (negative, m) ∧ n = if negative then -(m : ℤ) else m := by
  rcases hsign : readSign v with ⟨negative, digits⟩
  simp only [signedDecimal, hsign] at h
  obtain ⟨⟨hne, hall⟩, hn⟩ := Option.ite_none_right_eq_some.mp h
  have hdigits := List.all_eq_true.mp hall
  have hspace := dropWhile_isSpace_of_readSign hsign hne hdigits
  refine ⟨negative, decimal digits, ?_, (Option.some.inj hn).symm⟩
  simp only [readInteger, hspace, hsign]
  rw [List.takeWhile_eq_self_iff.mpr hdigits, if_neg (by simpa using hne)]

/-- A number that is returned only if it is in range. -/
theorem eq_of_ite_ok {P : Prop} [Decidable P] {n x : ℤ} {e : StoiError}
    (h : (if P then .ok n else .error e : Except StoiError ℤ) = .ok x) : x = n := by
  split_ifs at h
  exact (Except.ok.inj h).symm

/-- `stoi` reads the number that the other functions read, or throws. -/
theorem stoi_of_readInteger {v : Bytes} {negative : Bool} {m : ℕ}
    (h : readInteger v = .ok (negative, m)) {x : ℤ} (hx : stoi v = .ok x) :
    x = if negative then -(m : ℤ) else m := by
  rcases hsign : readSign (v.dropWhile isSpace) with ⟨sign, rest⟩
  simp only [readInteger, stoi, hsign] at h hx
  by_cases hempty : (rest.takeWhile isDigit).isEmpty = true
  · rw [if_pos hempty] at h
    cases h
  · rw [if_neg hempty] at h hx
    obtain ⟨rfl, rfl⟩ := Prod.mk.inj (Except.ok.inj h)
    exact eq_of_ite_ok hx

variable {v : Bytes} {n : ℤ}

theorem readPort_of_signedDecimal (h : signedDecimal v = some n) {x : UInt16}
    (hx : Setting.readPort v = .ok x) : x = .ofInt n := by
  obtain ⟨negative, m, hread, rfl⟩ := readInteger_of_signedDecimal h
  rw [Setting.readPort] at hx
  cases hstoi : stoi v with
  | error e =>
    rw [hstoi] at hx
    cases hx
  | ok y =>
    rw [hstoi] at hx
    rw [← stoi_of_readInteger hread hstoi]
    exact (Except.ok.inj hx).symm

theorem stoll_of_signedDecimal (h : signedDecimal v = some n) {x : ℤ} (hx : stoll v = .ok x) :
    x = n := by
  obtain ⟨negative, m, hread, rfl⟩ := readInteger_of_signedDecimal h
  simp only [stoll, hread, bind, Except.bind] at hx
  exact eq_of_ite_ok hx

/-- A minus sign is taken modulo 2^64. -/
theorem stoul_of_signedDecimal (h : signedDecimal v = some n) {x : UInt64} (hx : stoul v = .ok x) :
    x = .ofInt n ∧ n < 2 ^ 64 := by
  obtain ⟨negative, m, hread, rfl⟩ := readInteger_of_signedDecimal h
  simp only [stoul, hread, bind, Except.bind] at hx
  by_cases hm : m < 2 ^ 64
  · rw [if_pos hm] at hx
    obtain rfl := Except.ok.inj hx
    have hsize : UInt64.size = 2 ^ 64 := rfl
    rw [← UInt64.toNat_inj, toNat_ofInt64]
    cases negative with
    | false =>
      simp only [Bool.false_eq_true, ↓reduceIte, UInt64.toNat_ofNat']
      omega
    | true =>
      simp only [↓reduceIte, UInt64.toNat_neg, UInt64.toNat_ofNat', hsize]
      omega
  · rw [if_neg hm] at hx
    cases hx

/-! ## Validation -/

/-- What a conversion says of the number it reads holds of the field and the number in the
file. -/
theorem Reads.of_written {α : Type} {kv : KvStore} {key : Bytes}
    {read : Bytes → Except StoiError α} {P : ℤ → α → Prop} {default n : ℤ} {old x : α}
    (hP : ∀ v n, signedDecimal v = some n → ∀ x, read v = .ok x → P n x)
    (hdefault : P default old) (hread : Reads kv key read old x)
    (hn : Written kv key default n) : P n x := by
  rw [Reads] at hread
  rw [Written] at hn
  cases hkey : kv key with
  | none =>
    rw [hkey] at hread hn
    rw [hread, hn]
    exact hdefault
  | some v =>
    rw [hkey] at hread hn
    exact hP v n hn x hread

theorem validate_eq_true_iff (p : ConfigParser) :
    p.validate = true ↔ p.config.port.toNat ≠ 0 ∧
      (1 ≤ p.config.threadPoolSize.toNat ∧ p.config.threadPoolSize.toNat ≤ 128) ∧
      1 ≤ p.config.rateLimitCapacity ∧ 1 ≤ p.config.rateLimitRefillRate := by
  have hport : p.config.port = 0 ↔ p.config.port.toNat = 0 := UInt16.toNat_inj.symm
  have hthreads : p.config.threadPoolSize = 0 ↔ p.config.threadPoolSize.toNat = 0 :=
    UInt64.toNat_inj.symm
  have hmax : 128 < p.config.threadPoolSize ↔ 128 < p.config.threadPoolSize.toNat :=
    UInt64.lt_iff_toNat_lt
  have hlt := p.config.port.toNat_lt
  simp only [ConfigParser.validate, Bool.or_eq_true, beq_iff_eq, decide_eq_true_eq, hport,
    hthreads, hmax]
  split_ifs
  all_goals
    simp only [false_iff, true_iff]
    omega

/-- `validate` judges the numbers in a file exactly when these are free of wrap-around, or
some number is out of range also after it. -/
theorem validate_iff_inRange_iff (path content : Bytes) (disk : Disk)
    (hdisk : disk.content path = some content)
    (hload : (ConfigParser.loadFromFile {} disk path).1 = .ok true)
    {port threads capacity rate : ℤ}
    (hport : Written (valuesIn content) (ascii "port") 8080 port)
    (hthreads : Written (valuesIn content) (ascii "thread_pool_size") 4 threads)
    (hcapacity : Written (valuesIn content) (ascii "rate_limit_capacity") 100 capacity)
    (hrate : Written (valuesIn content) (ascii "rate_limit_refill_rate") 50 rate) :
    ((ConfigParser.loadFromFile {} disk path).2.validate = true ↔
        InRange port threads capacity rate) ↔
      (0 ≤ port ∧ port ≤ 65535 ∧ 0 ≤ threads) ∨ port % 65536 = 0 ∨
        ¬(1 ≤ threads % 2 ^ 64 ∧ threads % 2 ^ 64 ≤ 128) ∨ capacity < 1 ∨ rate < 1 := by
  obtain ⟨c, hc⟩ := applySettings_of_loadFromFile hdisk hload
  rw [loadFromFile_of_applySettings hdisk hc, validate_eq_true_iff]
  rw [overriddenBy_fresh] at hc
  obtain ⟨hport', hthreads', hcapacity', hrate', -⟩ := applySettings_eq_iff.mp hc
  have h₁ : c.port = .ofInt port :=
    Reads.of_written (P := fun n x => x = .ofInt n) (fun _ _ h _ => readPort_of_signedDecimal h)
      rfl hport' hport
  have h₂ : c.threadPoolSize = .ofInt threads ∧ threads < 2 ^ 64 :=
    Reads.of_written (P := fun n x => x = .ofInt n ∧ n < 2 ^ 64)
      (fun _ _ h _ => stoul_of_signedDecimal h) ⟨rfl, by decide⟩ hthreads' hthreads
  have h₃ : c.rateLimitCapacity = capacity :=
    Reads.of_written (P := fun n x => x = n) (fun _ _ h _ => stoll_of_signedDecimal h) rfl
      hcapacity' hcapacity
  have h₄ : c.rateLimitRefillRate = rate :=
    Reads.of_written (P := fun n x => x = n) (fun _ _ h _ => stoll_of_signedDecimal h) rfl
      hrate' hrate
  dsimp only
  rw [h₁, h₂.1, h₃, h₄, toNat_ofInt16, toNat_ofInt64, InRange]
  have hthreads := h₂.2
  omega

/-- A port, a pool size and a capacity in range, the last one signed. -/
theorem validate_iff_inRange_signed :
    let disk := diskWith (ascii "port = 9000\nthread_pool_size = 16\nrate_limit_capacity = +7\n")
    (ConfigParser.loadFromFile {} disk (ascii "gateway.conf")).2.validate = true ↔
      InRange 9000 16 7 50 := by
  intro disk
  refine (validate_iff_inRange_iff (ascii "gateway.conf") _ disk rfl rfl ?_ ?_ ?_ ?_).mpr ?_
  · rfl
  · rfl
  · rfl
  · rfl
  · exact Or.inl ⟨by decide, by decide, by decide⟩

/-- Port 70000 is valid as port 4464. -/
theorem wrapped_port_validates :
    let content := ascii "port = 70000\n"
    let disk := diskWith content
    (ConfigParser.loadFromFile {} disk (ascii "gateway.conf")).1 = .ok true ∧
    Written (valuesIn content) (ascii "port") 8080 70000 ∧
    (ConfigParser.loadFromFile {} disk (ascii "gateway.conf")).2.validate = true ∧
    ¬ InRange 70000 4 100 50 := by
  intro content disk
  refine ⟨rfl, rfl, rfl, fun h => ?_⟩
  exact absurd h.1.2 (by decide)

end Gateway.Config
