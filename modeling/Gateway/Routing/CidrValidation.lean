import Gateway.Routing.LongestPrefixMatch

/-!
# Which strings `add_route` accepts

The text after the slash goes through `std::stoi`, which skips white space, takes a sign,
ignores what follows the digits and throws, and the number it returns is not checked
before it becomes a shift. The text before the slash is cut at a NUL byte.
-/

namespace Gateway.Routing

/-- A dotted quad, alone or with a prefix length between 0 and 32. -/
def ValidCidr (cidr : Bytes) : Prop := ∃ a n, Denotes cidr a n

/-- A valid string is accepted; any other is refused, without a fault, and no lookup
changes. -/
def ValidatesCidr (inetPton : Bytes → Option Net32) (t : RoutingTable) (cidr nextHop : Bytes) :
    Prop :=
  (ValidCidr cidr → ∃ t', t.addRoute inetPton cidr nextHop = .ok (true, t')) ∧
  (¬ ValidCidr cidr → ∃ t', t.addRoute inetPton cidr nextHop = .ok (false, t') ∧
    ∀ d, t'.lookupIp d = t.lookupIp d)

/-- What `inet_pton` is given. -/
def addressText (cidr : Bytes) : Bytes := cStr (cidr.takeWhile (· != 47))

/-- What `std::stoi` is given, when there is a slash. -/
def lengthText (cidr : Bytes) : Option Bytes :=
  if 47 ∈ cidr then some ((cidr.dropWhile (· != 47)).drop 1) else none

/-- No dotted quad before the slash, and a number that can be read after it. -/
def Refusable (cidr : Bytes) : Prop :=
  (∀ a, addressText cidr ≠ dottedQuad a) ∧
    ∀ text, lengthText cidr = some text → ∃ n, stoi text = .ok n

theorem splitCidr_of_none {cidr : Bytes} (h : lengthText cidr = none) :
    splitCidr cidr = .ok (cidr.takeWhile (· != 47), 32) := by
  have hmem : 47 ∉ cidr := by
    intro hmem
    rw [lengthText, if_pos hmem] at h
    cases h
  simp only [splitCidr, findIdx?_of_notMem hmem, takeWhile_bne_of_notMem hmem]

/-- Both ways to cut a string at its first slash. -/
theorem splitCidr_of_some {cidr text : Bytes} (h : lengthText cidr = some text) :
    splitCidr cidr = match stoi text with
      | .ok n => .ok (cidr.takeWhile (· != 47), n)
      | .error e => .error (.stoi e) := by
  have hmem : 47 ∈ cidr := by
    by_contra hmem
    rw [lengthText, if_neg hmem] at h
    cases h
  rw [lengthText, if_pos hmem, Option.some.injEq, List.dropWhile_eq_drop_findIdx_not,
    List.drop_drop] at h
  have htake : cidr.takeWhile (· != 47) = cidr.take (cidr.findIdx (· == 47)) := by
    rw [List.takeWhile_eq_take_findIdx_not]
    simp only [bne, Bool.not_not]
  simp only [bne, Bool.not_not] at h
  have hfind : cidr.findIdx? (· == 47) = some (cidr.findIdx (· == 47)) :=
    List.findIdx?_eq_some_of_exists ⟨47, hmem, beq_self_eq_true _⟩
  cases hstoi : stoi text <;> simp only [splitCidr, hfind, h, hstoi, htake]

/-- Once the string is split, only `inet_pton` refuses it. -/
theorem addRoute_eq_false_of_split {inetPton : Bytes → Option Net32} {t t' : RoutingTable}
    {cidr nextHop ipStr : Bytes} {n : ℤ} (h : splitCidr cidr = .ok (ipStr, n)) :
    t.addRoute inetPton cidr nextHop = .ok (false, t') ↔
      inetPton (cStr ipStr) = none ∧ t' = t := by
  simp only [RoutingTable.addRoute, h, bind, Except.bind, pure, Except.pure]
  cases inetPton (cStr ipStr) with
  | none => simp [eq_comm]
  | some networkIp => cases maskOf n <;> simp

variable {inetPton : Bytes → Option Net32} (hpton : ReadsExactlyDottedQuads inetPton)
include hpton

theorem readsDottedQuads_of_exactly : ReadsDottedQuads inetPton :=
  fun a => (hpton _ _).mpr ⟨a, rfl, rfl⟩

theorem inetPton_eq_none_iff (s : Bytes) : inetPton s = none ↔ ∀ a, s ≠ dottedQuad a := by
  rw [Option.eq_none_iff_forall_ne_some]
  constructor
  · rintro h a rfl
    exact h _ (readsDottedQuads_of_exactly hpton a)
  · intro h n hn
    obtain ⟨a, rfl, -⟩ := (hpton s n).mp hn
    exact h a rfl

/-- The calls that return false, and what they leave. -/
theorem addRoute_eq_false_iff (t t' : RoutingTable) (cidr nextHop : Bytes) :
    t.addRoute inetPton cidr nextHop = .ok (false, t') ↔ Refusable cidr ∧ t' = t := by
  rw [Refusable, ← inetPton_eq_none_iff hpton, addressText]
  cases hlen : lengthText cidr with
  | none => simp [addRoute_eq_false_of_split (splitCidr_of_none hlen)]
  | some text =>
    have hsplit := splitCidr_of_some hlen
    cases hstoi : stoi text with
    | error e =>
      simp only [hstoi] at hsplit
      simp [RoutingTable.addRoute, hsplit, bind, Except.bind, hstoi]
    | ok n =>
      simp only [hstoi] at hsplit
      simp [addRoute_eq_false_of_split hsplit, hstoi]

/-- `add_route` validates its argument exactly when that is a valid CIDR string, or has no
dotted quad before the slash and something `std::stoi` can read after it. -/
theorem validatesCidr_iff (t : RoutingTable) (cidr nextHop : Bytes) :
    ValidatesCidr inetPton t cidr nextHop ↔ ValidCidr cidr ∨ Refusable cidr := by
  by_cases hvalid : ValidCidr cidr
  · obtain ⟨a, n, hden⟩ := hvalid
    have hadd := addRoute_eq (readsDottedQuads_of_exactly hpton) t ⟨cidr, nextHop, a, n, hden⟩
    exact iff_of_true ⟨fun _ => ⟨_, hadd⟩, fun h => absurd ⟨a, n, hden⟩ h⟩ (.inl ⟨a, n, hden⟩)
  · simp only [ValidatesCidr, hvalid, false_imp_iff, not_false_iff, true_imp_iff, true_and,
      false_or, addRoute_eq_false_iff hpton]
    constructor
    · rintro ⟨t', ⟨hrefusable, -⟩, -⟩
      exact hrefusable
    · intro hrefusable
      exact ⟨t, ⟨hrefusable, rfl⟩, fun _ => rfl⟩

omit hpton

/-- A prefix length without an address. -/
theorem validatesCidr_noAddress :
    ReadsExactlyDottedQuads Gateway.inetPton ∧
      ValidatesCidr Gateway.inetPton .new (ascii "lan/24") (ascii "eth0") := by
  refine ⟨inetPton_eq_some_iff, (validatesCidr_iff inetPton_eq_some_iff _ _ _).mpr (.inr ⟨?_, ?_⟩)⟩
  · exact (inetPton_eq_none_iff inetPton_eq_some_iff _).mp (by decide)
  · intro text htext
    obtain rfl : ascii "24" = text := Option.some.inj htext
    exact ⟨24, rfl⟩

theorem mem_of_denotes {cidr : Bytes} {a : BitVec 32} {n : ℕ} (h : Denotes cidr a n) {c : UInt8}
    (hc : c ∈ cidr) : isDigit c = true ∨ c = 46 ∨ c = 47 := by
  cases h with
  | host => exact (mem_dottedQuad hc).imp_right .inl
  | net _ digits hne hd hle =>
    rcases List.mem_append.mp hc with hc | hc
    · exact (mem_dottedQuad hc).imp_right .inl
    · rcases List.mem_cons.mp hc with rfl | hc
      · exact .inr (.inr rfl)
      · exact .inl (hd c hc)

/-- The letters after the prefix length are ignored, and the route is added. -/
theorem addRoute_accepts_trailing_letters :
    ReadsExactlyDottedQuads Gateway.inetPton ∧ ¬ ValidCidr (ascii "10.0.0.0/8abc") ∧
      (∃ t', RoutingTable.new.addRoute Gateway.inetPton (ascii "10.0.0.0/8abc") (ascii "eth0") =
        .ok (true, t')) ∧
      ¬ ValidatesCidr Gateway.inetPton .new (ascii "10.0.0.0/8abc") (ascii "eth0") := by
  have hinvalid : ¬ ValidCidr (ascii "10.0.0.0/8abc") := by
    rintro ⟨a, n, hden⟩
    have := mem_of_denotes hden (c := 97) (by decide)
    revert this
    decide
  have hadded : ∃ t', RoutingTable.new.addRoute Gateway.inetPton (ascii "10.0.0.0/8abc")
      (ascii "eth0") = .ok (true, t') := ⟨_, rfl⟩
  refine ⟨inetPton_eq_some_iff, hinvalid, hadded, fun hvalidates => ?_⟩
  obtain ⟨t', ht'⟩ := hadded
  obtain ⟨t'', hrefused, -⟩ := hvalidates.2 hinvalid
  rw [ht'] at hrefused
  cases hrefused

end Gateway.Routing
