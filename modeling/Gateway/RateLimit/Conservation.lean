import Gateway.RateLimit.RateLimiter
import Mathlib.Data.List.Nodup
import Mathlib.Tactic.Linarith

/-!
# No refill and no consumption is lost or applied twice

Both compare-exchange loops work on a copy of `tokens_micro_` that may be stale, but a
successful exchange finds the copy up to date. So the level is the capacity plus what
the refills added minus what was consumed, in every interleaving.
-/

namespace Gateway.RateLimit
open Steps Threads

variable {T : Type*} {lim : TokenBucketRateLimiter} {least : ℤ}

/-! ## What a step of a thread does -/

/-- The two places from which the head of the loop in `try_consume` is reached. -/
inductive Point.AtHead (tokensNeeded : ℤ) : Point → Prop
  | load : AtHead tokensNeeded (.loadTokens tokensNeeded)
  | retry (current : ℤ) : AtHead tokensNeeded (.casTokens tokensNeeded current)

/-- The transitions of a thread. -/
inductive Moves (lim : TokenBucketRateLimiter) (t : T) (n : ℕ) (g : Shared T) :
    Act → Point → Local → Shared T → Prop
  | call (c : Call) : Moves lim t n g (.call c) .idle ⟨n + 1, .readClock c⟩ g
  | readClock (b : Bool) (c : Call) :
      Moves lim t n g (.advance b) (.readClock c) ⟨n, .loadLastRefill c g.clock⟩ g
  | notDue (b : Bool) (c : Call) (now : ℤ) :
      Moves lim t n g (.advance b) (.loadLastRefill c now) ⟨n, c.afterRefill⟩ g
  | due (b : Bool) (c : Call) (now : ℤ) (hus : 0 < elapsedUs now g.lastRefill)
      (hadd : 0 < lim.toAdd (elapsedUs now g.lastRefill)) :
      Moves lim t n g (.advance b) (.loadLastRefill c now)
        ⟨n, .storeLastRefill c now g.lastRefill⟩ g
  | storeLastRefill (b : Bool) (c : Call) (now last : ℤ) :
      Moves lim t n g (.advance b) (.storeLastRefill c now last)
        ⟨n, .loadTokensRefill c (lim.toAdd (elapsedUs now last))⟩ { g with lastRefill := now }
  | loadTokensRefill (b : Bool) (c : Call) (toAdd : ℤ) :
      Moves lim t n g (.advance b) (.loadTokensRefill c toAdd)
        ⟨n, .casRefill c toAdd g.tokensMicro⟩ g
  | refilled (b : Bool) (c : Call) (toAdd : ℤ) :
      Moves lim t n g (.advance b) (.casRefill c toAdd g.tokensMicro) ⟨n, c.afterRefill⟩
        { g with
          tokensMicro := min (g.tokensMicro + toAdd) lim.capacityMicro
          added := g.added ++
            [((t, n), min (g.tokensMicro + toAdd) lim.capacityMicro - g.tokensMicro)] }
  | retryRefill (b : Bool) (c : Call) (toAdd current : ℤ) :
      Moves lim t n g (.advance b) (.casRefill c toAdd current)
        ⟨n, .casRefill c toAdd g.tokensMicro⟩ g
  | denied (b : Bool) {k : ℤ} {p : Point} (hp : p.AtHead k) :
      Moves lim t n g (.advance b) p ⟨n, .idle⟩
        { g with returned := g.returned ++ [⟨(t, n), k, false⟩] }
  | enough (b : Bool) {k : ℤ} {p : Point} (hp : p.AtHead k) (hk : k * micro ≤ g.tokensMicro) :
      Moves lim t n g (.advance b) p ⟨n, .casTokens k g.tokensMicro⟩ g
  | consumed (b : Bool) (k : ℤ) :
      Moves lim t n g (.advance b) (.casTokens k g.tokensMicro) ⟨n, .idle⟩
        { g with
          tokensMicro := g.tokensMicro - k * micro
          returned := g.returned ++ [⟨(t, n), k, true⟩] }

theorem moves_of_consumeHead {t : T} {n : ℕ} {g g' : Shared T} {l' : Local} (b : Bool) {k : ℤ}
    {p : Point} (hp : p.AtHead k) (h : consumeHead t n k g.tokensMicro g = (l', g')) :
    Moves lim t n g (.advance b) p l' g' := by
  unfold consumeHead at h
  split_ifs at h with hlt
  · cases h; exact .denied b hp
  · cases h; exact .enough b hp (not_lt.mp hlt)

theorem moves_of_advance {t : T} {b : Bool} {n : ℕ} {p : Point} {g g' : Shared T} {l' : Local}
    (h : advance lim t b n g p = some (l', g')) : Moves lim t n g (.advance b) p l' g' := by
  cases p with
  | idle => cases h
  | readClock c => cases h; exact .readClock b c
  | loadLastRefill c now =>
    simp only [advance] at h
    split_ifs at h with hus hadd
    · cases h; exact .notDue b c now
    · cases h; exact .notDue b c now
    · cases h; exact .due b c now (not_le.mp hus) (not_le.mp hadd)
  | storeLastRefill c now last => cases h; exact .storeLastRefill b c now last
  | loadTokensRefill c toAdd => cases h; exact .loadTokensRefill b c toAdd
  | casRefill c toAdd current =>
    simp only [advance] at h
    split_ifs at h with hcas
    · obtain ⟨rfl, -⟩ := hcas
      cases h
      exact .refilled b c toAdd
    · cases h; exact .retryRefill b c toAdd current
  | loadTokens k => exact moves_of_consumeHead b .load (Option.some.inj h)
  | casTokens k current =>
    simp only [advance] at h
    split_ifs at h with hcas
    · obtain ⟨rfl, -⟩ := hcas
      cases h
      exact .consumed b k
    · exact moves_of_consumeHead b (.retry current) (Option.some.inj h)

theorem moves_of_move {t : T} {a : Act} {l l' : Local} {g g' : Shared T}
    (h : move lim t a l g = some (l', g')) : Moves lim t l.calls g a l.point l' g' := by
  obtain ⟨n, p⟩ := l
  cases a with
  | call c =>
    cases p with
    | idle => cases h; exact .call c
    | _ => cases h
  | advance b => exact moves_of_advance h

/-- The threads leave the time alone. -/
theorem clock_of_moves {t : T} {n : ℕ} {g g' : Shared T} {a : Act} {p : Point} {l' : Local}
    (h : Moves lim t n g a p l' g') : g'.clock = g.clock := by
  cases h <;> rfl

/-! ## The ledger of the shared level -/

/-- The level is within the bucket and balances, and no call is entered twice. Calls
ask for at least `least` tokens. -/
structure Balanced (lim : TokenBucketRateLimiter) (least : ℤ) (g : Shared T) : Prop where
  nonneg : 0 ≤ g.tokensMicro
  le_capacity : g.tokensMicro ≤ lim.capacityMicro
  balance : g.tokensMicro = lim.capacityMicro + g.totalAdded - micro * g.totalConsumed
  added_nodup : (g.added.map Prod.fst).Nodup
  returned_nodup : (g.returned.map Return.call).Nodup
  returned_least : ∀ r ∈ g.returned, least ≤ r.tokensNeeded

def Call.AtLeast (least : ℤ) : Call → Prop
  | .refill => True
  | .tryConsume k => least ≤ k

/-- The amounts a thread adds are not negative, and `current` covers the tokens a
`try_consume` call is about to take. -/
def Point.Sound (lim : TokenBucketRateLimiter) (least : ℤ) : Point → Prop
  | .idle => True
  | .readClock c => c.AtLeast least
  | .loadLastRefill c _ => c.AtLeast least
  | .storeLastRefill c now last => c.AtLeast least ∧ 0 ≤ lim.toAdd (elapsedUs now last)
  | .loadTokensRefill c toAdd => c.AtLeast least ∧ 0 ≤ toAdd
  | .casRefill c toAdd _ => c.AtLeast least ∧ 0 ≤ toAdd
  | .loadTokens k => least ≤ k
  | .casTokens k current => least ≤ k ∧ k * micro ≤ current

/-- The calls whose refill may have been entered: all, or all but the running one. -/
def Local.refills : Local → ℕ
  | ⟨n, .idle⟩ => n + 1
  | ⟨n, .loadTokens _⟩ => n + 1
  | ⟨n, .casTokens _ _⟩ => n + 1
  | ⟨n, _⟩ => n

/-- The calls that may have returned. -/
def Local.returns : Local → ℕ
  | ⟨n, .idle⟩ => n + 1
  | ⟨n, _⟩ => n

/-- The ledger as one thread sees it: its entries are of the calls it has made so far. -/
structure Owns (lim : TokenBucketRateLimiter) (least : ℤ) (t : T) (l : Local) (g : Shared T) :
    Prop where
  sound : l.point.Sound lim least
  added_lt : ∀ n, (t, n) ∈ g.added.map Prod.fst → n < l.refills
  returned_lt : ∀ n, (t, n) ∈ g.returned.map Return.call → n < l.returns

theorem Local.le_refills (n : ℕ) (p : Point) : n ≤ Local.refills ⟨n, p⟩ := by
  cases p <;> simp [Local.refills]

theorem Local.le_returns (n : ℕ) (p : Point) : n ≤ Local.returns ⟨n, p⟩ := by
  cases p <;> simp [Local.returns]

theorem refills_afterRefill (n : ℕ) (c : Call) : Local.refills ⟨n, c.afterRefill⟩ = n + 1 := by
  cases c <;> rfl

theorem Call.AtLeast.sound {c : Call} (hc : c.AtLeast least) :
    c.afterRefill.Sound lim least := by
  cases c with
  | refill => trivial
  | tryConsume k => exact hc

theorem Point.AtHead.least_le {k : ℤ} {p : Point} (hp : p.AtHead k) (hs : p.Sound lim least) :
    least ≤ k := by
  cases hp with
  | load => exact hs
  | retry current => exact hs.1

/-- A step that leaves the ledger alone keeps it when the bounds do not shrink. -/
theorem Owns.mono {t : T} {l l' : Local} {g : Shared T} (ho : Owns lim least t l g)
    (hs : l'.point.Sound lim least) (hf : l.refills ≤ l'.refills) (hr : l.returns ≤ l'.returns) :
    Owns lim least t l' g :=
  ⟨hs, fun n hn => (ho.added_lt n hn).trans_le hf, fun n hn => (ho.returned_lt n hn).trans_le hr⟩

/-! ## Steps keep the ledger -/

/-- A successful refill adds the difference it reports, once. -/
theorem Balanced.refill {t : T} {n : ℕ} {g : Shared T} {toAdd : ℤ} (hb : Balanced lim least g)
    (hadd : 0 ≤ toAdd) (hnew : (t, n) ∉ g.added.map Prod.fst) :
    Balanced lim least { g with
      tokensMicro := min (g.tokensMicro + toAdd) lim.capacityMicro
      added := g.added ++
        [((t, n), min (g.tokensMicro + toAdd) lim.capacityMicro - g.tokensMicro)] } where
  nonneg := le_min (add_nonneg hb.nonneg hadd) (hb.nonneg.trans hb.le_capacity)
  le_capacity := min_le_right _ _
  balance := by
    have := hb.balance
    simp only [Shared.totalAdded, Shared.totalConsumed, Shared.allowed, List.map_append,
      List.sum_append, List.map_singleton, List.sum_singleton] at this ⊢
    linarith
  added_nodup := by
    rw [List.map_append, List.map_singleton, ← List.concat_eq_append]
    exact List.Nodup.concat hnew hb.added_nodup
  returned_nodup := hb.returned_nodup
  returned_least := hb.returned_least

theorem Balanced.returned_nodup_append {g : Shared T} {r : Return T} (hb : Balanced lim least g)
    (hnew : r.call ∉ g.returned.map Return.call) :
    ((g.returned ++ [r]).map Return.call).Nodup := by
  rw [List.map_append, List.map_singleton, ← List.concat_eq_append]
  exact List.Nodup.concat hnew hb.returned_nodup

theorem Balanced.returned_least_append {g : Shared T} {r : Return T} (hb : Balanced lim least g)
    (hr : least ≤ r.tokensNeeded) : ∀ s ∈ g.returned ++ [r], least ≤ s.tokensNeeded :=
  List.forall_mem_append.mpr ⟨hb.returned_least, List.forall_mem_singleton.mpr hr⟩

theorem Balanced.deny {t : T} {n : ℕ} {g : Shared T} {k : ℤ} (hb : Balanced lim least g)
    (hk : least ≤ k) (hnew : (t, n) ∉ g.returned.map Return.call) :
    Balanced lim least { g with returned := g.returned ++ [⟨(t, n), k, false⟩] } where
  nonneg := hb.nonneg
  le_capacity := hb.le_capacity
  balance := by
    rw [hb.balance]
    simp [Shared.totalAdded, Shared.totalConsumed, Shared.allowed]
  added_nodup := hb.added_nodup
  returned_nodup := hb.returned_nodup_append hnew
  returned_least := hb.returned_least_append hk

/-- A successful `try_consume` takes its tokens, once. -/
theorem Balanced.consume {t : T} {n : ℕ} {g : Shared T} {k : ℤ} (hb : Balanced lim least g)
    (hleast : 0 ≤ least) (hk : least ≤ k) (hcover : k * micro ≤ g.tokensMicro)
    (hnew : (t, n) ∉ g.returned.map Return.call) :
    Balanced lim least { g with
      tokensMicro := g.tokensMicro - k * micro
      returned := g.returned ++ [⟨(t, n), k, true⟩] } where
  nonneg := sub_nonneg.mpr hcover
  le_capacity := (sub_le_self _ (mul_nonneg (hleast.trans hk) (by decide))).trans hb.le_capacity
  balance := by
    have := hb.balance
    simp only [Shared.totalAdded, Shared.totalConsumed, Shared.allowed, List.filter_append,
      List.filter_cons_of_pos, List.filter_nil, List.map_append, List.sum_append,
      List.map_singleton, List.sum_singleton] at this ⊢
    linarith
  added_nodup := hb.added_nodup
  returned_nodup := hb.returned_nodup_append hnew
  returned_least := hb.returned_least_append hk

theorem Owns.not_mem_added {t : T} {l : Local} {g : Shared T} (ho : Owns lim least t l g)
    (hn : l.refills = l.calls) : (t, l.calls) ∉ g.added.map Prod.fst := fun hmem =>
  absurd (ho.added_lt _ hmem) (by omega)

theorem Owns.not_mem_returned {t : T} {l : Local} {g : Shared T} (ho : Owns lim least t l g)
    (hn : l.returns = l.calls) : (t, l.calls) ∉ g.returned.map Return.call := fun hmem =>
  absurd (ho.returned_lt _ hmem) (by omega)

/-- Entering the running call of `t` in the ledger is covered by the bounds. -/
theorem forall_lt_of_append {α : Type*} {f : α → T × ℕ} {ids : List α} {t : T} {n m m' : ℕ}
    (h : ∀ i, (t, i) ∈ ids.map f → i < m) (hm : m ≤ m') (hn : n < m') {a : α} (ha : f a = (t, n)) :
    ∀ i, (t, i) ∈ (ids ++ [a]).map f → i < m' := by
  intro i hi
  rw [List.map_append, List.mem_append, List.map_singleton, List.mem_singleton, ha] at hi
  rcases hi with hi | hi
  · exact (h i hi).trans_le hm
  · obtain ⟨-, rfl⟩ := Prod.mk.inj hi
    exact hn

theorem Point.AtHead.returns {k : ℤ} {p : Point} (hp : p.AtHead k) (n : ℕ) :
    Local.returns ⟨n, p⟩ = n := by
  cases hp <;> rfl

theorem Point.AtHead.refills {k : ℤ} {p : Point} (hp : p.AtHead k) (n : ℕ) :
    Local.refills ⟨n, p⟩ = n + 1 := by
  cases hp <;> rfl

/-- A thread keeps the ledger and its own part of it. -/
theorem moves_own {t : T} {n : ℕ} {g g' : Shared T} {a : Act} {p : Point} {l' : Local}
    (hleast : 0 ≤ least) (hb : Balanced lim least g) (ho : Owns lim least t ⟨n, p⟩ g)
    (hq : ∀ c, a = .call c → c.AtLeast least) (hm : Moves lim t n g a p l' g') :
    Balanced lim least g' ∧ Owns lim least t l' g' := by
  have hs := ho.sound
  cases hm with
  | call c => exact ⟨hb, ho.mono (hq c rfl) le_rfl le_rfl⟩
  | readClock b c => exact ⟨hb, ho.mono hs le_rfl le_rfl⟩
  | notDue b c now =>
    exact ⟨hb, ho.mono (Call.AtLeast.sound hs) (Local.le_refills n _) (Local.le_returns n _)⟩
  | due b c now hus hadd => exact ⟨hb, ho.mono ⟨hs, hadd.le⟩ le_rfl le_rfl⟩
  -- the time of the last refill is not in the ledger
  | storeLastRefill b c now last =>
    exact ⟨⟨hb.nonneg, hb.le_capacity, hb.balance, hb.added_nodup, hb.returned_nodup,
      hb.returned_least⟩,
      ⟨hs, ho.added_lt, ho.returned_lt⟩⟩
  | loadTokensRefill b c toAdd => exact ⟨hb, ho.mono hs le_rfl le_rfl⟩
  | refilled b c toAdd =>
    refine ⟨hb.refill hs.2 (ho.not_mem_added rfl), Call.AtLeast.sound hs.1, ?_, fun i hi => ?_⟩
    · apply forall_lt_of_append ho.added_lt (Local.le_refills n _) _ rfl
      rw [refills_afterRefill]
      exact n.lt_succ_self
    · exact (ho.returned_lt i hi).trans_le (Local.le_returns n _)
  | retryRefill b c toAdd current => exact ⟨hb, ho.mono hs le_rfl le_rfl⟩
  | denied b hp =>
    have hnew := ho.not_mem_returned (hp.returns n)
    refine ⟨hb.deny (hp.least_le hs) hnew, trivial, fun i hi => ?_, ?_⟩
    · exact (ho.added_lt i hi).trans_le (hp.refills n).le
    · exact forall_lt_of_append ho.returned_lt ((hp.returns n).le.trans n.le_succ)
        n.lt_succ_self rfl
  | enough b hp hk =>
    exact ⟨hb, ho.mono ⟨hp.least_le hs, hk⟩ (hp.refills n).le (hp.returns n).le⟩
  | consumed b k =>
    refine ⟨hb.consume hleast hs.1 hs.2 (ho.not_mem_returned rfl), trivial, ho.added_lt, ?_⟩
    exact forall_lt_of_append ho.returned_lt n.le_succ n.lt_succ_self rfl

/-- What one thread enters in the ledger is not another thread's. -/
theorem moves_other {t u : T} {n : ℕ} {g g' : Shared T} {a : Act} {p : Point} {l' m : Local}
    (hu : u ≠ t) (ho : Owns lim least u m g) (hm : Moves lim t n g a p l' g') :
    Owns lim least u m g' := by
  have hne : ∀ i, (u, i) ≠ (t, n) := fun i h => hu (Prod.mk.inj h).1
  cases hm with
  | call c => exact ho
  | readClock b c => exact ho
  | notDue b c now => exact ho
  | due b c now hus hadd => exact ho
  | storeLastRefill b c now last => exact ⟨ho.sound, ho.added_lt, ho.returned_lt⟩
  | loadTokensRefill b c toAdd => exact ho
  | refilled b c toAdd =>
    refine ⟨ho.sound, fun i hi => ho.added_lt i ?_, ho.returned_lt⟩
    simpa [hne i] using hi
  | retryRefill b c toAdd current => exact ho
  | denied b hp =>
    refine ⟨ho.sound, ho.added_lt, fun i hi => ho.returned_lt i ?_⟩
    simpa [hne i] using hi
  | enough b hp hk => exact ho
  | consumed b k =>
    refine ⟨ho.sound, ho.added_lt, fun i hi => ho.returned_lt i ?_⟩
    simpa [hne i] using hi

theorem balanced_init (h : 0 ≤ lim.capacityMicro) (start : ℤ) :
    Balanced lim least (lim.init (T := T) start).shared where
  nonneg := h
  le_capacity := le_rfl
  balance := by simp [TokenBucketRateLimiter.init, Shared.totalAdded, Shared.totalConsumed,
    Shared.allowed]
  added_nodup := List.nodup_nil
  returned_nodup := List.nodup_nil
  returned_least _ hr := absurd hr List.not_mem_nil

theorem owns_init (t : T) (start : ℤ) :
    Owns lim least t ((lim.init start).locals t) (lim.init (T := T) start).shared :=
  ⟨trivial, fun _ hi => absurd hi List.not_mem_nil, fun _ hi => absurd hi List.not_mem_nil⟩

variable [DecidableEq T]

/-- The ledger along every run. -/
theorem balanced_run (hleast : 0 ≤ least) (hcap : 0 ≤ lim.capacityMicro) {start : ℤ}
    {actions : List (Action T Act ℕ)} {c : Config T Local (Shared T)}
    (hcalls : ∀ t k, .thread t (.call (.tryConsume k)) ∈ actions → least ≤ k)
    (hrun : exec (step lim) (lim.init start) actions = some c) :
    Balanced lim least c.shared ∧ ∀ t, Owns lim least t (c.locals t) c.shared := by
  refine invariant_of_noninterference (I := Balanced lim least) (P := Owns lim least)
    (Q := fun _ a _ _ => ∀ c, a = .call c → c.AtLeast least) ?_ ?_ ?_ (balanced_init hcap start)
    (fun t => owns_init t start) (meets_of_forall_mem ?_ _) hrun
  · intro t a l g l' g' hb ho hq hmove
    exact moves_own hleast hb ho hq (moves_of_move hmove)
  · intro t a l g l' g' u m hu _ ho hmove
    exact moves_other hu ho (moves_of_move hmove)
  · intro ns g hb
    exact ⟨⟨hb.nonneg, hb.le_capacity, hb.balance, hb.added_nodup, hb.returned_nodup,
      hb.returned_least⟩,
      fun _ _ ho => ⟨ho.sound, ho.added_lt, ho.returned_lt⟩⟩
  · rintro (⟨t, a⟩ | ns) hmem c
    · rintro (_ | k) rfl
      · trivial
      · exact hcalls t k hmem
    · trivial

/-- In every interleaving the level stays within the bucket and is the capacity plus what
the refills added minus what was consumed, each call counted once. -/
theorem tokens_conserved {capacity rate start : ℤ} (hcap : 0 ≤ capacity)
    {actions : List (Action T Act ℕ)} {c : Config T Local (Shared T)}
    (hcalls : ∀ t k, .thread t (.call (.tryConsume k)) ∈ actions → 0 ≤ k)
    (hrun : let lim := TokenBucketRateLimiter.new capacity rate
      exec (step lim) (lim.init start) actions = some c) :
    (0 ≤ c.shared.tokensMicro ∧ c.shared.tokensMicro ≤ capacity * micro) ∧
    c.shared.tokensMicro =
      capacity * micro + c.shared.totalAdded - micro * c.shared.totalConsumed ∧
    (c.shared.added.map Prod.fst).Nodup ∧ (c.shared.returned.map Return.call).Nodup := by
  have hb := (balanced_run le_rfl (mul_nonneg hcap (by decide)) hcalls hrun).1
  exact ⟨⟨hb.nonneg, hb.le_capacity⟩, hb.balance, hb.added_nodup, hb.returned_nodup⟩

/-- Two threads take the last two tokens; the second one's first exchange fails. -/
def lastTwoTokens : List (Action Bool Act ℕ) :=
  [times 1 true (.call (.tryConsume 1)), times 1 false (.call (.tryConsume 1)),
    times 3 true (.advance false), times 3 false (.advance false), times 1 true (.advance false),
    times 2 false (.advance false)].flatten

theorem tokens_conserved_lastTwoTokens :
    (∀ t k, .thread t (.call (.tryConsume k)) ∈ lastTwoTokens → 0 ≤ k) ∧
    ∃ c, exec (step (.new 2 5)) (TokenBucketRateLimiter.init (.new 2 5) 0) lastTwoTokens =
        some c ∧
      c.shared.tokensMicro = 2 * micro + c.shared.totalAdded - micro * c.shared.totalConsumed ∧
      c.shared.totalConsumed = 2 := by
  have hcalls : ∀ t k, .thread t (.call (.tryConsume k)) ∈ lastTwoTokens → 0 ≤ k := by
    intro t k hmem
    simp [lastTwoTokens, times] at hmem
    omega
  have hrun : (exec (step (.new 2 5)) (TokenBucketRateLimiter.init (.new 2 5) 0)
      lastTwoTokens).map (fun c => c.shared.totalConsumed) = some 2 := by
    decide +kernel
  obtain ⟨c, hc, htwo⟩ := Option.map_eq_some_iff.mp hrun
  exact ⟨hcalls, c, hc, (tokens_conserved (by decide) hcalls hc).2.1, htwo⟩

end Gateway.RateLimit
