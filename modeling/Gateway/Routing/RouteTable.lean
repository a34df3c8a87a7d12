import Gateway.Lib.Libc
import Gateway.Lib.PrefixTrie

/-!
# The routing table (`include/routing/RouteTable.hpp`)

`add_route` parses a CIDR string and walks the trie bit by bit, most significant
bit first; `lookup_ip` walks it again and keeps the last route it passes. What
`inet_pton` does is a parameter, and the lines printed on the console are not
modelled.
-/

namespace Gateway.Routing

/-- One routing rule; addresses are in host byte order. -/
structure Route where
  network : BitVec 32
  mask : BitVec 32
  prefixLen : ℤ
  nextHop : Bytes
deriving DecidableEq, Repr

def Route.matches (r : Route) (destIp : BitVec 32) : Bool := destIp &&& r.mask == r.network

/-- `std::unique_ptr<TrieNode>`: the value of a node is its `route`. -/
abbrev TrieNode := Trie Route

structure RoutingTable where
  root : TrieNode
deriving Repr

/-- How `add_route` can leave other than by returning: an exception of
`std::stoi`, or a shift by a negative amount or by 32 and more, which is
undefined. -/
inductive Fault where
  | stoi (e : StoiError)
  | undefinedShift
deriving DecidableEq, Repr

/-- The address part and the prefix length of a CIDR string. -/
def splitCidr (cidr : Bytes) : Except Fault (Bytes × ℤ) :=
  match cidr.findIdx? (· == 47) with
  | none => .ok (cidr, 32)
  | some slash =>
    match stoi (cidr.drop (slash + 1)) with
    | .ok prefixLen => .ok (cidr.take slash, prefixLen)
    | .error e => .error (.stoi e)

/-- `prefix_len == 0 ? 0 : (~0u << (32 - prefix_len))` -/
def maskOf (prefixLen : ℤ) : Except Fault (BitVec 32) :=
  if prefixLen = 0 then .ok 0
  else if 0 ≤ 32 - prefixLen ∧ 32 - prefixLen < 32 then
    .ok (~~~0#32 <<< (32 - prefixLen).toNat)
  else .error .undefinedShift

/-- The insertion loop `for (int bit = 31; bit >= stop; --bit)`, with `bit + 1`
as the counter, and the assignment after it. -/
def insertLoop (network : BitVec 32) (r : Route) (stop : ℕ) : ℕ → TrieNode → TrieNode
  | 0, node => node.setValue r
  | bit + 1, node =>
    if stop ≤ bit then
      let direction := network.getLsbD bit
      node.setChild direction (insertLoop network r stop bit (node.child direction))
    else node.setValue r

/-- The lookup loop `for (int bit = 31; bit >= 0 && node; --bit)`: the node it
ends at and the best match so far. -/
def lookupLoop (destIp : BitVec 32) : ℕ → TrieNode → Option Route → TrieNode × Option Route
  | 0, node, bestMatch => (node, bestMatch)
  | _ + 1, .null, bestMatch => (.null, bestMatch)
  | bit + 1, node, bestMatch =>
    lookupLoop destIp bit (node.child (destIp.getLsbD bit)) (node.value.or bestMatch)

namespace RoutingTable

def new : RoutingTable := ⟨.empty⟩

/-- `lookup_ip`, with the check of the leaf after the loop. -/
def lookupIp (t : RoutingTable) (destIp : BitVec 32) : Option Route :=
  let (node, bestMatch) := lookupLoop destIp 32 t.root none
  node.value.or bestMatch

variable (inetPton : Bytes → Option Net32)

def addRoute (t : RoutingTable) (cidr nextHop : Bytes) : Except Fault (Bool × RoutingTable) := do
  let (ipStr, prefixLen) ← splitCidr cidr
  match inetPton (cStr ipStr) with
  | none => pure (false, t)
  | some networkIp =>
    let mask ← maskOf prefixLen
    let network := ntohl networkIp &&& mask
    let r : Route := ⟨network, mask, prefixLen, nextHop⟩
    pure (true, ⟨insertLoop network r (32 - prefixLen).toNat 32 t.root⟩)

/-- A sequence of `add_route(cidr, next_hop)` calls and the flags they return. -/
def addRoutes : RoutingTable → List (Bytes × Bytes) → Except Fault (List Bool × RoutingTable)
  | t, [] => .ok ([], t)
  | t, (cidr, nextHop) :: calls => do
    let (added, t) ← addRoute inetPton t cidr nextHop
    let (rest, t) ← addRoutes t calls
    pure (added :: rest, t)

def lookup (t : RoutingTable) (destIpStr : Bytes) : Option Route :=
  (inetPton (cStr destIpStr)).bind fun destIp => t.lookupIp (ntohl destIp)

end RoutingTable

/-! ## The walks as trie operations -/

/-- The low `n` bits of an address, most significant first: the directions the
loops take from `bit = n - 1` on. -/
def bitsFrom (w : BitVec 32) : ℕ → List Bool
  | 0 => []
  | bit + 1 => w.getLsbD bit :: bitsFrom w bit

@[simp] theorem bitsFrom_length (w : BitVec 32) (n : ℕ) : (bitsFrom w n).length = n := by
  induction n with
  | zero => rfl
  | succ n ih => rw [bitsFrom, List.length_cons, ih]

theorem insertLoop_eq_insert (network : BitVec 32) (r : Route) {stop n : ℕ} (h : stop ≤ n)
    (node : TrieNode) :
    insertLoop network r stop n node = node.insert ((bitsFrom network n).take (n - stop)) r := by
  induction n generalizing node with
  | zero =>
    rw [Nat.le_zero.mp h]
    rfl
  | succ bit ih =>
    rw [insertLoop]
    dsimp only
    by_cases hbit : stop ≤ bit
    · rw [if_pos hbit, ih hbit, Nat.succ_sub hbit]
      rfl
    · rw [if_neg hbit, show bit + 1 - stop = 0 by omega]
      rfl

theorem lookupLoop_eq_longest (destIp : BitVec 32) (n : ℕ) (node : TrieNode)
    (bestMatch : Option Route) :
    (lookupLoop destIp n node bestMatch).1.value.or (lookupLoop destIp n node bestMatch).2 =
      (node.longest (bitsFrom destIp n)).or bestMatch := by
  induction n generalizing node bestMatch with
  | zero => rfl
  | succ bit ih =>
    cases node with
    | null => simp [lookupLoop]
    | node zero one v =>
      rw [lookupLoop, ih, bitsFrom, Trie.longest, Option.or_assoc]
      simp

theorem lookupIp_eq_longest (t : RoutingTable) (destIp : BitVec 32) :
    t.lookupIp destIp = t.root.longest (bitsFrom destIp 32) := by
  rw [RoutingTable.lookupIp, ← Option.or_none (o := Trie.longest _ _)]
  exact lookupLoop_eq_longest destIp 32 t.root none

end Gateway.Routing
