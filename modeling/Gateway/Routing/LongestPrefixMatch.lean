import Gateway.Routing.RouteTable
import Mathlib.Data.List.Basic

/-!
# The trie is a longest-prefix match
-/

namespace Gateway.Routing

/-- The mask of a prefix length between 0 and 32. -/
def netMask (n : ℕ) : BitVec 32 := if n = 0 then 0 else ~~~0#32 <<< (32 - n)

theorem maskOf_eq {n : ℕ} (h : n ≤ 32) : maskOf n = .ok (netMask n) := by
  unfold maskOf netMask
  by_cases h0 : n = 0
  · simp [h0]
  · have hsub : (32 - (n : ℤ)).toNat = 32 - n := by omega
    rw [if_neg (by omega), if_pos (by omega), if_neg h0, hsub]

theorem getLsbD_netMask {n : ℕ} (h : n ≤ 32) (i : ℕ) :
    (netMask n).getLsbD i = (decide (32 - n ≤ i) && decide (i < 32)) := by
  unfold netMask
  by_cases h0 : n = 0
  · simp [h0]
  · simp only [h0, ↓reduceIte, BitVec.getLsbD_shiftLeft, BitVec.getLsbD_not, BitVec.getLsbD_zero,
      Bool.not_false, Bool.and_true, ← Bool.decide_and, ← decide_not]
    apply decide_eq_decide.mpr
    omega

theorem take_bitsFrom_eq_iff (v w : BitVec 32) {n k : ℕ} (h : k ≤ n) :
    (bitsFrom v n).take k = (bitsFrom w n).take k ↔
      ∀ i, n - k ≤ i → i < n → v.getLsbD i = w.getLsbD i := by
  induction n generalizing k with
  | zero => simp [bitsFrom]
  | succ bit ih =>
    cases k with
    | zero => simp; omega
    | succ k =>
      have hk : k ≤ bit := by omega
      simp only [bitsFrom, List.take_succ_cons, List.cons.injEq, ih hk]
      constructor
      · rintro ⟨htop, hlow⟩ i hi hlt
        rcases Nat.lt_succ_iff_lt_or_eq.mp hlt with hi' | rfl
        · exact hlow i (by omega) hi'
        · exact htop
      · intro hall
        exact ⟨hall bit (by omega) (by omega), fun i hi hlt => hall i (by omega) (by omega)⟩

/-- Two addresses agree under a mask exactly when the walks for it agree. -/
theorem and_netMask_eq_iff (v w : BitVec 32) {n : ℕ} (h : n ≤ 32) :
    v &&& netMask n = w &&& netMask n ↔ (bitsFrom v 32).take n = (bitsFrom w 32).take n := by
  rw [take_bitsFrom_eq_iff v w h]
  constructor
  · intro heq i hi hlt
    have hbit := congrArg (fun u => BitVec.getLsbD u i) heq
    simpa only [BitVec.getLsbD_and, getLsbD_netMask h, hi, hlt, decide_true, Bool.and_true]
      using hbit
  · intro hall
    apply BitVec.eq_of_getLsbD_eq
    intro i hlt
    rw [BitVec.getLsbD_and, BitVec.getLsbD_and, getLsbD_netMask h]
    by_cases hi : 32 - n ≤ i
    · rw [hall i hi hlt]
    · simp [hi]

/-- The invariant of every stored route: a prefix length the mask belongs to, and
no host bits. -/
structure Route.WellFormed (r : Route) (n : ℕ) : Prop where
  le : n ≤ 32
  prefixLen_eq : r.prefixLen = n
  mask_eq : r.mask = netMask n
  masked : r.network &&& netMask n = r.network

/-- Where a route is stored. -/
def Route.path (r : Route) : List Bool := (bitsFrom r.network 32).take r.prefixLen.toNat

/-- The prefix a route is for. -/
def Route.key (r : Route) : BitVec 32 × ℤ := (r.network, r.prefixLen)

theorem Route.WellFormed.path_length {r : Route} {n : ℕ} (h : r.WellFormed n) :
    r.path.length = n := by
  rw [Route.path, List.length_take, bitsFrom_length, h.prefixLen_eq, Int.toNat_natCast]
  exact min_eq_left h.le

/-- A route lies on the path of a destination exactly when it matches it. -/
theorem Route.WellFormed.path_eq_iff {r : Route} {n : ℕ} (h : r.WellFormed n) (d : BitVec 32)
    {k : ℕ} (hk : k ≤ 32) :
    r.path = (bitsFrom d 32).take k ↔ n = k ∧ r.matches d = true := by
  have hmatch : r.matches d = true ↔ r.path = (bitsFrom d 32).take n := by
    rw [Route.matches, beq_iff_eq, h.mask_eq, Route.path, h.prefixLen_eq, Int.toNat_natCast,
      ← and_netMask_eq_iff _ _ h.le, h.masked, eq_comm]
  rw [hmatch]
  constructor
  · intro heq
    have hlen := congrArg List.length heq
    rw [h.path_length, List.length_take, bitsFrom_length, min_eq_left hk] at hlen
    exact ⟨hlen, hlen ▸ heq⟩
  · rintro ⟨rfl, heq⟩
    exact heq

theorem Route.WellFormed.path_eq_path_iff {r r' : Route} {n n' : ℕ} (h : r.WellFormed n)
    (h' : r'.WellFormed n') : r'.path = r.path ↔ r'.key = r.key := by
  have hpath : r.path = (bitsFrom r.network 32).take n := by
    rw [Route.path, h.prefixLen_eq, Int.toNat_natCast]
  rw [hpath, h'.path_eq_iff _ h.le, Route.key, Route.key, Prod.mk.injEq, h.prefixLen_eq,
    h'.prefixLen_eq, Nat.cast_inj, Route.matches, beq_iff_eq, h'.mask_eq]
  constructor
  · rintro ⟨rfl, heq⟩
    exact ⟨heq.symm.trans h.masked, rfl⟩
  · rintro ⟨heq, rfl⟩
    exact ⟨rfl, h.masked.trans heq.symm⟩

/-! ## Calls with a valid CIDR string -/

/-- The CIDR strings for an address and a prefix length: a dotted quad alone is a
/32, otherwise decimal digits follow a slash. Host bits may be set. -/
inductive Denotes : Bytes → BitVec 32 → ℕ → Prop where
  | host (a : BitVec 32) : Denotes (dottedQuad a) a 32
  | net (a : BitVec 32) (digits : Bytes) (hne : digits ≠ []) (hd : ∀ c ∈ digits, isDigit c)
      (hle : decimal digits ≤ 32) : Denotes (dottedQuad a ++ 47 :: digits) a (decimal digits)

/-- An `add_route` call with a valid CIDR string. -/
structure RouteCall where
  cidr : Bytes
  nextHop : Bytes
  addr : BitVec 32
  len : ℕ
  denotes : Denotes cidr addr len

namespace RouteCall

def args (c : RouteCall) : Bytes × Bytes := (c.cidr, c.nextHop)

/-- The route the call is about. -/
def route (c : RouteCall) : Route := ⟨c.addr &&& netMask c.len, netMask c.len, c.len, c.nextHop⟩

theorem len_le (c : RouteCall) : c.len ≤ 32 := by
  obtain ⟨_, _, _, _, hden⟩ := c
  cases hden with
  | host => exact le_rfl
  | net _ _ _ _ hle => exact hle

theorem route_wellFormed (c : RouteCall) : c.route.WellFormed c.len where
  le := c.len_le
  prefixLen_eq := rfl
  mask_eq := rfl
  masked := by rw [route, BitVec.and_assoc, BitVec.and_self]

end RouteCall

theorem splitCidr_eq {cidr : Bytes} {a : BitVec 32} {n : ℕ} (h : Denotes cidr a n) :
    splitCidr cidr = .ok (dottedQuad a, n) := by
  have hslash := slash_notMem_dottedQuad a
  cases h with
  | host =>
    rw [splitCidr, findIdx?_of_notMem hslash]
    rfl
  | net _ digits hne hd hle =>
    rw [splitCidr, findIdx?_append_cons hslash]
    dsimp only
    have hsplit : dottedQuad a ++ 47 :: digits = (dottedQuad a ++ [47]) ++ digits := by simp
    rw [List.take_left, hsplit, List.drop_left' (by simp), stoi_digits hne hd (by omega)]

/-- A valid call stores its route under its own prefix. -/
theorem addRoute_eq {inetPton : Bytes → Option Net32} (hpton : ReadsDottedQuads inetPton)
    (t : RoutingTable) (c : RouteCall) :
    t.addRoute inetPton c.cidr c.nextHop =
      .ok (true, ⟨t.root.insert c.route.path c.route⟩) := by
  have hle := c.len_le
  have hstop : (32 - (c.len : ℤ)).toNat = 32 - c.len := by omega
  simp only [RoutingTable.addRoute, splitCidr_eq c.denotes, bind, Except.bind, cStr_dottedQuad,
    hpton c.addr, maskOf_eq hle, ntohl_htonl, pure, Except.pure, hstop]
  rw [insertLoop_eq_insert _ _ (Nat.sub_le 32 c.len), Nat.sub_sub_self hle]
  rfl

theorem addRoutes_eq {inetPton : Bytes → Option Net32} (hpton : ReadsDottedQuads inetPton)
    (t : RoutingTable) (calls : List RouteCall) :
    t.addRoutes inetPton (calls.map RouteCall.args) =
      .ok (List.replicate calls.length true,
        ⟨t.root.insertAll (calls.map fun c => (c.route.path, c.route))⟩) := by
  induction calls generalizing t with
  | nil => rfl
  | cons c calls ih =>
    simp only [List.map_cons, RouteCall.args, RoutingTable.addRoutes, addRoute_eq hpton, bind,
      Except.bind] at ih ⊢
    rw [ih]
    rfl

/-! ## The linear scan -/

/-- Only the latest call for each prefix counts. -/
def keepLatest : List Route → List Route
  | [] => []
  | r :: rs => if ∃ r' ∈ rs, r'.key = r.key then keepLatest rs else r :: keepLatest rs

/-- The plain scan: the kept routes that match, and of these one with the greatest
prefix length. -/
def linearScan (routes : List Route) (destIp : BitVec 32) : Option Route :=
  ((keepLatest routes).filter (·.matches destIp)).maxOn? Route.prefixLen

theorem mem_keepLatest {r : Route} {routes : List Route} :
    r ∈ keepLatest routes ↔ (routes.filter fun r' => r'.key = r.key).getLast? = some r := by
  induction routes with
  | nil => simp [keepLatest]
  | cons x rs ih =>
    rw [keepLatest]
    by_cases hkey : x.key = r.key
    · rw [List.filter_cons_of_pos (by simpa using hkey), List.getLast?_cons]
      split_ifs with hlater
      -- a later call for the same prefix hides `x`
      · obtain ⟨y, hy, hyx⟩ := hlater
        have hne : rs.filter (fun r' => r'.key = r.key) ≠ [] :=
          List.ne_nil_of_mem (List.mem_filter.mpr ⟨hy, by simpa using hyx.trans hkey⟩)
        rw [ih, List.getLast?_eq_some_getLast hne, Option.getD_some]
      · have hnil : rs.filter (fun r' => r'.key = r.key) = [] := by
          apply List.filter_eq_nil_iff.mpr
          intro y hy hyr
          exact hlater ⟨y, hy, (by simpa using hyr : y.key = r.key).trans hkey.symm⟩
        rw [List.mem_cons, ih, hnil]
        simp [eq_comm]
    · have hne : r ≠ x := fun h => hkey (h ▸ rfl)
      rw [List.filter_cons_of_neg (by simpa using hkey), ← ih]
      split_ifs
      · rfl
      · simp [hne]

/-- The table after a sequence of calls. -/
def routeTrie (calls : List RouteCall) : TrieNode :=
  Trie.empty.insertAll (calls.map fun c => (c.route.path, c.route))

theorem find_routeTrie (calls : List RouteCall) (key : List Bool) :
    (routeTrie calls).find key =
      ((calls.map RouteCall.route).filter fun r => r.path = key).getLast? := by
  rw [routeTrie, Trie.find_insertAll, Trie.find_empty, Option.or_none, List.filter_map,
    List.filter_map, List.getLast?_map, List.getLast?_map, Option.map_map]
  rfl

/-- Among the routes of valid calls, those stored with `r` are those for its prefix. -/
theorem filter_path_eq {calls : List RouteCall} {r : Route} {n : ℕ} (hr : r.WellFormed n) :
    (calls.map RouteCall.route).filter (fun r' => r'.path = r.path) =
      (calls.map RouteCall.route).filter fun r' => r'.key = r.key := by
  apply List.filter_congr
  intro r' hr'
  obtain ⟨c, -, rfl⟩ := List.mem_map.mp hr'
  exact decide_eq_decide.mpr (hr.path_eq_path_iff c.route_wellFormed)

/-- The value stored for a prefix of the destination is the kept route of that
length that matches it. -/
theorem find_routeTrie_eq_some_iff {calls : List RouteCall} {d : BitVec 32} {n : ℕ} (hn : n ≤ 32)
    (r : Route) :
    (routeTrie calls).find ((bitsFrom d 32).take n) = some r ↔
      r ∈ keepLatest (calls.map RouteCall.route) ∧ r.matches d = true ∧ r.prefixLen = n := by
  rw [find_routeTrie, mem_keepLatest]
  constructor
  · intro h
    obtain ⟨hmem, hpath⟩ := List.mem_filter.mp (List.mem_of_getLast? h)
    obtain ⟨c, -, rfl⟩ := List.mem_map.mp hmem
    have hwf := c.route_wellFormed
    rw [decide_eq_true_iff] at hpath
    rw [← hpath, filter_path_eq hwf] at h
    obtain ⟨hlen, hmatch⟩ := (hwf.path_eq_iff d hn).mp hpath
    exact ⟨h, hmatch, hlen ▸ rfl⟩
  · rintro ⟨h, hmatch, hlen⟩
    obtain ⟨hmem, -⟩ := List.mem_filter.mp (List.mem_of_getLast? h)
    obtain ⟨c, -, rfl⟩ := List.mem_map.mp hmem
    have hwf := c.route_wellFormed
    have hpath := (hwf.path_eq_iff d hn).mpr ⟨Nat.cast_inj.mp (hwf.prefixLen_eq ▸ hlen), hmatch⟩
    rwa [← hpath, filter_path_eq hwf]

/-- The walk and the scan agree. -/
theorem longest_routeTrie_eq_linearScan (calls : List RouteCall) (d : BitVec 32) :
    (routeTrie calls).longest (bitsFrom d 32) = linearScan (calls.map RouteCall.route) d := by
  have hmem : ∀ r, r ∈ (keepLatest (calls.map RouteCall.route)).filter (·.matches d) →
      ∃ n : ℕ, n ≤ 32 ∧ r.prefixLen = n ∧
        (routeTrie calls).find ((bitsFrom d 32).take n) = some r := by
    intro r hr
    obtain ⟨hkept, hmatch⟩ := List.mem_filter.mp hr
    obtain ⟨hroute, -⟩ := List.mem_filter.mp (List.mem_of_getLast? (mem_keepLatest.mp hkept))
    obtain ⟨c, -, rfl⟩ := List.mem_map.mp hroute
    exact ⟨c.len, c.len_le, rfl, (find_routeTrie_eq_some_iff c.len_le _).mpr ⟨hkept, hmatch, rfl⟩⟩
  cases hwalk : (routeTrie calls).longest (bitsFrom d 32) with
  | none =>
    rw [Trie.longest_eq_none_iff, bitsFrom_length] at hwalk
    have hnil : (keepLatest (calls.map RouteCall.route)).filter (·.matches d) = [] := by
      apply List.eq_nil_iff_forall_not_mem.mpr
      intro r hr
      obtain ⟨n, hn, -, hfind⟩ := hmem r hr
      rw [hwalk n hn] at hfind
      exact absurd hfind (by simp)
    rw [linearScan, hnil, List.maxOn?_nil]
  | some r =>
    rw [Trie.longest_eq_some_iff, bitsFrom_length] at hwalk
    obtain ⟨n, hn, hfind, hmax⟩ := hwalk
    obtain ⟨hkept, hmatch, hlen⟩ := (find_routeTrie_eq_some_iff hn r).mp hfind
    have hr : r ∈ (keepLatest (calls.map RouteCall.route)).filter (·.matches d) :=
      List.mem_filter.mpr ⟨hkept, hmatch⟩
    cases hscan : linearScan (calls.map RouteCall.route) d with
    | none =>
      have hsome := List.isSome_maxOn?_of_mem (f := Route.prefixLen) hr
      rw [linearScan] at hscan
      rw [hscan] at hsome
      exact absurd hsome (by simp)
    | some best =>
      -- the longest match found by the scan is no longer than the walk, hence the same route
      obtain ⟨k, hk, hbest, hfindk⟩ := hmem best (List.maxOn?_mem hscan)
      have hle := List.le_apply_get_maxOn?_of_mem (f := Route.prefixLen) hr
      rw [linearScan] at hscan
      rw [Option.get_of_eq_some _ hscan] at hle
      have hkn : k = n := by
        by_contra hne
        rw [hmax k hk (by omega)] at hfindk
        exact absurd hfindk (by simp)
      rw [← hfind, ← hfindk, hkn]

/-- A reordering that keeps, for every single prefix, the order of its calls. -/
def SamePrefixOrder (calls calls' : List RouteCall) : Prop :=
  ∀ key, (calls.map RouteCall.route).filter (fun r => r.key = key) =
    (calls'.map RouteCall.route).filter fun r => r.key = key

theorem SamePrefixOrder.find_eq {calls calls' : List RouteCall} (h : SamePrefixOrder calls calls')
    (d : BitVec 32) {n : ℕ} (hn : n ≤ 32) :
    (routeTrie calls).find ((bitsFrom d 32).take n) =
      (routeTrie calls').find ((bitsFrom d 32).take n) := by
  let r : Route := ⟨d &&& netMask n, netMask n, n, []⟩
  have hwf : r.WellFormed n := ⟨hn, rfl, rfl, by rw [BitVec.and_assoc, BitVec.and_self]⟩
  have hpath : r.path = (bitsFrom d 32).take n :=
    (hwf.path_eq_iff d hn).mpr ⟨rfl, beq_self_eq_true _⟩
  rw [find_routeTrie, find_routeTrie, ← hpath, filter_path_eq hwf, filter_path_eq hwf, h r.key]

/-- Valid calls all succeed, the table they build is the linear scan over them,
and only the order of the calls for one and the same prefix matters. -/
theorem lookupIp_eq_linearScan {inetPton : Bytes → Option Net32}
    (hpton : ReadsDottedQuads inetPton) (calls : List RouteCall) :
    ∃ t, RoutingTable.new.addRoutes inetPton (calls.map RouteCall.args) =
        .ok (List.replicate calls.length true, t) ∧
      (∀ d, t.lookupIp d = linearScan (calls.map RouteCall.route) d) ∧
      ∀ calls', SamePrefixOrder calls calls' →
        ∃ t', RoutingTable.new.addRoutes inetPton (calls'.map RouteCall.args) =
            .ok (List.replicate calls'.length true, t') ∧
          ∀ d, t'.lookupIp d = t.lookupIp d := by
  refine ⟨⟨routeTrie calls⟩, addRoutes_eq hpton .new calls, ?_, ?_⟩
  · intro d
    rw [lookupIp_eq_longest]
    exact longest_routeTrie_eq_linearScan calls d
  · intro calls' horder
    refine ⟨⟨routeTrie calls'⟩, addRoutes_eq hpton .new calls', ?_⟩
    intro d
    rw [lookupIp_eq_longest, lookupIp_eq_longest]
    apply Trie.longest_congr
    intro m hm
    rw [bitsFrom_length] at hm
    exact (horder.find_eq d hm).symm

/-- `add_route("10.1.2.3/8", "eth1")` and `add_route("10.9.9.9", "eth2")`. -/
def sampleCalls : List RouteCall :=
  [⟨_, ascii "eth1", 0x0A010203#32, 8, .net _ [56] (by decide) (by simp [isDigit]) (by decide)⟩,
    ⟨_, ascii "eth2", 0x0A090909#32, 32, .host _⟩]

theorem lookupIp_eq_linearScan_sample :
    ReadsDottedQuads Gateway.inetPton ∧
    ∃ t, RoutingTable.new.addRoutes Gateway.inetPton (sampleCalls.map RouteCall.args) =
        .ok (List.replicate sampleCalls.length true, t) ∧
      (∀ d, t.lookupIp d = linearScan (sampleCalls.map RouteCall.route) d) ∧
      ∀ calls', SamePrefixOrder sampleCalls calls' →
        ∃ t', RoutingTable.new.addRoutes Gateway.inetPton (calls'.map RouteCall.args) =
            .ok (List.replicate calls'.length true, t') ∧
          ∀ d, t'.lookupIp d = t.lookupIp d :=
  ⟨inetPton_dottedQuad, lookupIp_eq_linearScan inetPton_dottedQuad sampleCalls⟩

end Gateway.Routing
