import Gateway.Network.PacketDissector
import Gateway.Routing.LongestPrefixMatch

/-!
# One more route (`include/routing/RouteTable.hpp`, `src/phase10_routing_engine.cpp`)

What a call of `add_route` changes, in a table that any calls have built, whatever strings they
were given; and what `print_lookup` shows of a route.
-/

namespace Gateway.Routing

/-- The route of a network address and a prefix length. -/
def routeOf (net : Net32) (n : ℕ) (nextHop : Bytes) : Route :=
  ⟨ntohl net &&& netMask n, netMask n, n, nextHop⟩

theorem routeOf_wellFormed (net : Net32) {n : ℕ} (hn : n ≤ 32) (nextHop : Bytes) :
    (routeOf net n nextHop).WellFormed n :=
  ⟨hn, rfl, rfl, by rw [routeOf, BitVec.and_assoc, BitVec.and_self]⟩

/-- The string has the address `net` before its slash, and `n` is read after it. -/
def Parses (inetPton : Bytes → Option Net32) (cidr : Bytes) (net : Net32) (n : ℕ) : Prop :=
  ∃ ipStr, splitCidr cidr = .ok (ipStr, (n : ℤ)) ∧ inetPton (cStr ipStr) = some net

/-- The part of the string before its slash is no address. -/
def HasNoAddress (inetPton : Bytes → Option Net32) (cidr : Bytes) : Prop :=
  ∃ ipStr prefixLen, splitCidr cidr = .ok (ipStr, prefixLen) ∧ inetPton (cStr ipStr) = none

/-- A call that returns has refused the string or has stored the route that is in it. -/
theorem addRoute_cases {inetPton : Bytes → Option Net32} {t t' : RoutingTable}
    {cidr nextHop : Bytes} {added : Bool}
    (h : t.addRoute inetPton cidr nextHop = .ok (added, t')) :
    (added = false ∧ HasNoAddress inetPton cidr ∧ t' = t) ∨
      (added = true ∧ ∃ net n, Parses inetPton cidr net n ∧ n ≤ 32 ∧
        t' = ⟨t.root.insert (routeOf net n nextHop).path (routeOf net n nextHop)⟩) := by
  unfold RoutingTable.addRoute at h
  cases hsplit : splitCidr cidr with
  | error e =>
    rw [hsplit] at h
    exact absurd h (by simp [bind, Except.bind])
  | ok parts =>
    obtain ⟨ipStr, prefixLen⟩ := parts
    rw [hsplit] at h
    simp only [bind, Except.bind, pure, Except.pure] at h
    cases hip : inetPton (cStr ipStr) with
    | none =>
      rw [hip] at h
      simp only [Except.ok.injEq, Prod.mk.injEq] at h
      exact Or.inl ⟨h.1.symm, ⟨ipStr, prefixLen, hsplit, hip⟩, h.2.symm⟩
    | some networkIp =>
      rw [hip] at h
      -- a length outside of 0 to 32 shifts by too much, and such a call does not return
      obtain ⟨n, hn, rfl⟩ | hfault : (∃ n : ℕ, n ≤ 32 ∧ prefixLen = n) ∨
          maskOf prefixLen = .error .undefinedShift := by
        by_cases hrange : 0 ≤ prefixLen ∧ prefixLen ≤ 32
        · exact Or.inl ⟨prefixLen.toNat, by omega, by omega⟩
        · right
          rw [maskOf, if_neg (by omega), if_neg (by omega)]
      · have hstop : (32 - (n : ℤ)).toNat = 32 - n := by omega
        simp only [maskOf_eq hn, hstop, Except.ok.injEq, Prod.mk.injEq] at h
        refine Or.inr ⟨h.1.symm, networkIp, n, ⟨ipStr, hsplit, hip⟩, hn, ?_⟩
        rw [← h.2, insertLoop_eq_insert _ _ (Nat.sub_le 32 n), Nat.sub_sub_self hn]
        rfl
      · simp only [hfault] at h
        exact absurd h (by simp)

/-! ## The routes of a table -/

/-- Every route is stored under its own prefix. -/
def RoutingTable.Stored (t : RoutingTable) : Prop :=
  ∀ key r, t.root.find key = some r → ∃ n, Route.WellFormed r n ∧ r.path = key

theorem stored_new : RoutingTable.new.Stored := by
  intro key r h
  rw [RoutingTable.new, Trie.find_empty] at h
  exact absurd h (by simp)

section Stored
variable {inetPton : Bytes → Option Net32} {t t' : RoutingTable}

theorem RoutingTable.Stored.insert (h : t.Stored) {r : Route} {n : ℕ} (hr : r.WellFormed n) :
    RoutingTable.Stored ⟨t.root.insert r.path r⟩ := by
  intro key r' hfind
  rw [Trie.find_insert] at hfind
  split_ifs at hfind with hkey
  · rw [← Option.some.inj hfind]
    exact ⟨n, hr, hkey.symm⟩
  · exact h key r' hfind

theorem stored_addRoutes {calls : List (Bytes × Bytes)} {flags : List Bool} (h : t.Stored)
    (hcalls : t.addRoutes inetPton calls = .ok (flags, t')) : t'.Stored := by
  induction calls generalizing t flags with
  | nil =>
    simp only [RoutingTable.addRoutes, Except.ok.injEq, Prod.mk.injEq] at hcalls
    rw [← hcalls.2]
    exact h
  | cons call calls ih =>
    obtain ⟨cidr, nextHop⟩ := call
    rw [RoutingTable.addRoutes] at hcalls
    cases hadd : t.addRoute inetPton cidr nextHop with
    | error e =>
      rw [hadd] at hcalls
      exact absurd hcalls (by simp [bind, Except.bind])
    | ok result =>
      obtain ⟨added, u⟩ := result
      have hu : u.Stored := by
        obtain ⟨-, -, rfl⟩ | ⟨-, net, n, -, hn, rfl⟩ := addRoute_cases hadd
        · exact h
        · exact h.insert (routeOf_wellFormed net hn nextHop)
      rw [hadd] at hcalls
      simp only [bind, Except.bind] at hcalls
      cases hrest : u.addRoutes inetPton calls with
      | error e =>
        rw [hrest] at hcalls
        exact absurd hcalls (by simp)
      | ok result =>
        rw [hrest] at hcalls
        simp only [pure, Except.pure, Except.ok.injEq, Prod.mk.injEq] at hcalls
        exact ih hu (hrest.trans (by rw [← hcalls.2]))

/-- What a lookup finds lies on the way of the destination, at its own depth. -/
theorem RoutingTable.Stored.lookupIp (h : t.Stored) {d : BitVec 32} {r : Route}
    (hlookup : t.lookupIp d = some r) :
    ∃ n, Route.WellFormed r n ∧ r.matches d = true ∧ t.root.find r.path = some r ∧
      ∀ m ≤ 32, n < m → t.root.find ((bitsFrom d 32).take m) = none := by
  rw [lookupIp_eq_longest, Trie.longest_eq_some_iff, bitsFrom_length] at hlookup
  obtain ⟨m, hm, hfind, hmax⟩ := hlookup
  obtain ⟨n, hr, hpath⟩ := h _ r hfind
  obtain ⟨rfl, hmatch⟩ := (hr.path_eq_iff d hm).mp hpath
  exact ⟨n, hr, hmatch, hpath ▸ hfind, hmax⟩

/-- Nothing is stored deeper on the way of the destination exactly when what a lookup finds is no
longer than the prefix. -/
theorem deepest_iff (h : t.Stored) (d : BitVec 32) (n : ℕ) :
    (∀ m ≤ 32, n < m → t.root.find ((bitsFrom d 32).take m) = none) ↔
      ∀ old ∈ t.lookupIp d, old.prefixLen ≤ n := by
  constructor
  · intro hnone old hold
    obtain ⟨k, hk, hmatch, hfind, -⟩ := h.lookupIp hold
    rw [hk.prefixLen_eq]
    by_contra hlt
    rw [(hk.path_eq_iff d hk.le).mpr ⟨rfl, hmatch⟩, hnone k hk.le (by omega)] at hfind
    exact absurd hfind (by simp)
  · intro hle m hm hlt
    by_contra hfound
    cases hlookup : t.lookupIp d with
    | none =>
      rw [lookupIp_eq_longest, Trie.longest_eq_none_iff, bitsFrom_length] at hlookup
      exact hfound (hlookup m hm)
    | some old =>
      obtain ⟨k, hk, -, -, hmax⟩ := h.lookupIp hlookup
      have hkn := hle old hlookup
      rw [hk.prefixLen_eq] at hkn
      exact hfound (hmax m hm (by omega))

end Stored

/-! ## What a call changes -/

theorem lookupIp_insert {t : RoutingTable} (h : t.Stored) {r : Route} {n : ℕ}
    (hr : r.WellFormed n) (d : BitVec 32) :
    RoutingTable.lookupIp ⟨t.root.insert r.path r⟩ d =
      if r.matches d = true ∧ ∀ old ∈ t.lookupIp d, old.prefixLen ≤ r.prefixLen then some r
      else t.lookupIp d := by
  have hway : r.path <+: bitsFrom d 32 ↔ r.matches d = true := by
    rw [List.prefix_iff_eq_take, hr.path_length, hr.path_eq_iff d hr.le]
    simp
  have hdeepest := deepest_iff h d n
  rw [lookupIp_eq_longest]
  split_ifs with hchanges
  · apply Trie.longest_insert_of_deepest _ _ (hway.mpr hchanges.1)
    rw [bitsFrom_length, hr.path_length, hdeepest, ← hr.prefixLen_eq]
    exact hchanges.2
  · rw [Trie.longest_insert_of_not_deepest, lookupIp_eq_longest]
    intro hkey
    rw [bitsFrom_length, hr.path_length]
    by_contra hnone
    apply hchanges ⟨hway.mp hkey, ?_⟩
    rw [hr.prefixLen_eq, ← hdeepest]
    intro m hm hlt
    by_contra hfound
    exact hnone ⟨m, hm, hlt, hfound⟩

/-- In a table that any calls have built, with any strings, what a lookup finds matches the
destination; a call that refuses its string found no address in it and changes no lookup; and any
other call changes exactly the lookups of the destinations in the prefix it was given that have
found nothing longer. -/
theorem lookup_after_addRoute (inetPton : Bytes → Option Net32) (calls : List (Bytes × Bytes))
    (flags : List Bool) (t : RoutingTable)
    (hcalls : RoutingTable.new.addRoutes inetPton calls = .ok (flags, t)) (cidr nextHop : Bytes)
    (added : Bool) (t' : RoutingTable)
    (hadd : t.addRoute inetPton cidr nextHop = .ok (added, t')) :
    (∀ d, ∀ r ∈ t.lookupIp d, r.matches d = true ∧ ∃ n, Route.WellFormed r n) ∧
      (added = false → HasNoAddress inetPton cidr ∧ ∀ d, t'.lookupIp d = t.lookupIp d) ∧
      (added = true → ∃ net n, Parses inetPton cidr net n ∧ n ≤ 32 ∧
        ∀ d, t'.lookupIp d =
          if d &&& netMask n = ntohl net &&& netMask n ∧
              ∀ old ∈ t.lookupIp d, old.prefixLen ≤ n then
            some ⟨ntohl net &&& netMask n, netMask n, n, nextHop⟩
          else t.lookupIp d) := by
  have hstored := stored_addRoutes stored_new hcalls
  refine ⟨?_, ?_, ?_⟩
  · intro d r hr
    obtain ⟨n, hwf, hmatch, -⟩ := hstored.lookupIp hr
    exact ⟨hmatch, n, hwf⟩
  · intro hrefused
    obtain ⟨-, hnone, rfl⟩ | ⟨hadded, -⟩ := addRoute_cases hadd
    · exact ⟨hnone, fun d => rfl⟩
    · exact absurd (hrefused.symm.trans hadded) (by decide)
  · intro hadded
    obtain ⟨hrefused, -⟩ | ⟨-, net, n, hparses, hn, rfl⟩ := addRoute_cases hadd
    · exact absurd (hrefused.symm.trans hadded) (by decide)
    · refine ⟨net, n, hparses, hn, fun d => ?_⟩
      have hmatch : (routeOf net n nextHop).matches d = true ↔
          d &&& netMask n = ntohl net &&& netMask n := beq_iff_eq
      rw [lookupIp_insert hstored (routeOf_wellFormed net hn nextHop) d]
      simp only [hmatch]
      rfl

/-- A string with letters after the number, in the table of the sample calls. -/
theorem lookup_after_addRoute_letters :
    ∃ flags t t' net n,
      RoutingTable.new.addRoutes inetPton (sampleCalls.map RouteCall.args) = .ok (flags, t) ∧
      t.addRoute inetPton (ascii "10.9.0.0/16x") (ascii "eth3") = .ok (true, t') ∧
      Parses inetPton (ascii "10.9.0.0/16x") net n ∧
        ∀ d, t'.lookupIp d =
          if d &&& netMask n = ntohl net &&& netMask n ∧
              ∀ old ∈ t.lookupIp d, old.prefixLen ≤ n then
            some ⟨ntohl net &&& netMask n, netMask n, n, ascii "eth3"⟩
          else t.lookupIp d := by
  have hcalls := addRoutes_eq inetPton_dottedQuad .new sampleCalls
  obtain ⟨t', hadd⟩ : ∃ t', RoutingTable.addRoute inetPton ⟨routeTrie sampleCalls⟩
      (ascii "10.9.0.0/16x") (ascii "eth3") = .ok (true, t') := ⟨_, rfl⟩
  obtain ⟨net, n, hparses, -, hlookups⟩ :=
    (lookup_after_addRoute inetPton _ _ _ hcalls _ _ _ _ hadd).2.2 rfl
  exact ⟨_, _, t', net, n, hcalls, hadd, hparses, hlookups⟩

/-! ## What is shown of a route -/

section Shown
variable (inetNtop : Net32 → Bytes)

/-- The prefix of a route as `print_lookup` shows it. -/
def shownPrefix (r : Route) : Bytes :=
  cStr (inetNtop (htonl r.network)) ++ ascii "/" ++ Network.decText r.prefixLen.toNat

/-- `print_lookup` -/
def printLookup (inetPton : Bytes → Option Net32) (t : RoutingTable) (dest : Bytes) : Bytes :=
  match t.lookup inetPton dest with
  | some r => ascii "[MATCH] " ++ dest ++ ascii "  ->  " ++ r.nextHop ++ ascii "  (prefix: " ++
      shownPrefix inetNtop r ++ ascii ")\n"
  | none => ascii "[NO ROUTE] " ++ dest ++ ascii "  -> DROPPED (no matching prefix)\n"

end Shown

/-- The shown prefix denotes the network and the length of the route. -/
theorem denotes_shownPrefix {inetNtop : Net32 → Bytes} (hntop : RendersDottedQuads inetNtop)
    {r : Route} {n : ℕ} (hr : r.WellFormed n) :
    Denotes (shownPrefix inetNtop r) r.network n := by
  have htext : shownPrefix inetNtop r = dottedQuad r.network ++ 47 :: Network.decText n := by
    have hquad : inetNtop (htonl r.network) = dottedQuad r.network := hntop _
    have hslash : ascii "/" = [47] := rfl
    rw [shownPrefix, hquad, cStr_dottedQuad, hr.prefixLen_eq, Int.toNat_natCast, hslash,
      List.append_assoc, List.singleton_append]
  have hvalue : decimal (Network.decText n) = n := Network.decimal_decText n
  have hden := Denotes.net r.network (Network.decText n) (Network.decText_ne_nil n)
    (fun _ => Network.isDigit_decText) (hvalue.trans_le hr.le)
  rw [hvalue] at hden
  rw [htext]
  exact hden

/-- Given the prefix that `print_lookup` shows for a destination, `add_route` stores the very
route again, and no lookup changes. -/
theorem shown_route_reads_back {inetPton : Bytes → Option Net32} {inetNtop : Net32 → Bytes}
    (hpton : ReadsDottedQuads inetPton) (hntop : RendersDottedQuads inetNtop)
    (calls : List (Bytes × Bytes)) (flags : List Bool) (t : RoutingTable)
    (hcalls : RoutingTable.new.addRoutes inetPton calls = .ok (flags, t)) (dest : Bytes) (r : Route)
    (hlookup : t.lookup inetPton dest = some r) :
    printLookup inetNtop inetPton t dest =
        ascii "[MATCH] " ++ dest ++ ascii "  ->  " ++ r.nextHop ++ ascii "  (prefix: " ++
          shownPrefix inetNtop r ++ ascii ")\n" ∧
      ∃ t', t.addRoute inetPton (shownPrefix inetNtop r) r.nextHop = .ok (true, t') ∧
        t'.root.find r.path = some r ∧ ∀ d, t'.lookupIp d = t.lookupIp d := by
  refine ⟨by rw [printLookup, hlookup], ?_⟩
  obtain ⟨ip, -, hip⟩ := Option.bind_eq_some_iff.mp hlookup
  obtain ⟨n, hr, -, hfind, -⟩ := (stored_addRoutes stored_new hcalls).lookupIp hip
  -- the shown prefix, as a call of `add_route` that stores `r`
  let call : RouteCall := ⟨_, r.nextHop, r.network, n, denotes_shownPrefix hntop hr⟩
  have hroute : call.route = r := by
    have hlen := hr.prefixLen_eq
    have hmask := hr.mask_eq
    have hnetwork := hr.masked
    cases r
    simp_all [call, RouteCall.route]
  have hadd := addRoute_eq hpton t call
  rw [hroute] at hadd
  refine ⟨_, hadd, ?_, ?_⟩
  · rw [Trie.find_insert, if_pos rfl]
  · intro d
    rw [lookupIp_eq_longest, lookupIp_eq_longest]
    apply Trie.longest_congr
    intro m _
    rw [Trie.find_insert]
    -- the new route is stored where the same one was
    split_ifs with hkey
    · rw [hkey, hfind]
    · rfl

theorem shown_route_reads_back_sample :
    ReadsDottedQuads inetPton ∧ RendersDottedQuads inetNtop ∧
      ∃ flags t r,
        RoutingTable.new.addRoutes inetPton (sampleCalls.map RouteCall.args) = .ok (flags, t) ∧
        t.lookup inetPton (ascii "10.7.7.7") = some r ∧
        shownPrefix inetNtop r = ascii "10.0.0.0/8" ∧
        printLookup inetNtop inetPton t (ascii "10.7.7.7") =
          ascii "[MATCH] " ++ ascii "10.7.7.7" ++ ascii "  ->  " ++ r.nextHop ++
            ascii "  (prefix: " ++ shownPrefix inetNtop r ++ ascii ")\n" ∧
        ∃ t', t.addRoute inetPton (shownPrefix inetNtop r) r.nextHop = .ok (true, t') := by
  have hcalls := addRoutes_eq inetPton_dottedQuad .new sampleCalls
  have hntop : RendersDottedQuads inetNtop := fun _ => rfl
  obtain ⟨r, hlookup, hshown⟩ : ∃ r, RoutingTable.lookup inetPton ⟨routeTrie sampleCalls⟩
      (ascii "10.7.7.7") = some r ∧ shownPrefix inetNtop r = ascii "10.0.0.0/8" :=
    ⟨_, rfl, by decide +kernel⟩
  obtain ⟨hprinted, t', hadd, -⟩ :=
    shown_route_reads_back inetPton_dottedQuad hntop _ _ _ hcalls _ r hlookup
  exact ⟨inetPton_dottedQuad, hntop, _, _, r, hcalls, hlookup, hshown, hprinted, t', hadd⟩

end Gateway.Routing
