import Gateway.Config.HotReload

/-!
# What a failed load leaves behind

`apply_kv` assigns the fields one after the other. When a conversion throws, the fields
before it keep their new values, so the configuration is left alone only if these values
are the old ones.
-/

namespace Gateway.Config

namespace Setting

/-- The stored text, if there is one, is converted without an exception. -/
def readable (kv : KvStore) (s : Setting) : Bool :=
  match kv s.key with
  | none => true
  | some v => (s.assign v {}).isOk

/-- The stored text, if there is one, reads as what the field already holds. -/
def Keeps (kv : KvStore) (c : GatewayConfig) (s : Setting) : Prop :=
  ∀ v, kv s.key = some v → s.assign v c = .ok c

/-- The setting assigns the field `get` reads and nothing else, and throws whatever the
configuration is. -/
structure Focuses {α : Type} (s : Setting) (get : GatewayConfig → α) : Prop where
  eq_of_get : ∀ v c c', s.assign v c = .ok c' → get c' = get c → c' = c
  isOk_eq : ∀ v c c', (s.assign v c).isOk = (s.assign v c').isOk

/-- The setting does not assign the field `get` reads. -/
def Ignores {α : Type} (s : Setting) (get : GatewayConfig → α) : Prop :=
  ∀ v c c', s.assign v c = .ok c' → get c' = get c

variable {α β : Type} {key : Bytes} {read : Bytes → Except StoiError α}
  {set : α → GatewayConfig → GatewayConfig}

theorem assign_of_eq_ok_iff {v : Bytes} {c c' : GatewayConfig} :
    (Setting.of key read set).assign v c = .ok c' ↔ ∃ x, read v = .ok x ∧ set x c = c' := by
  have hassign : (Setting.of key read set).assign v c = (read v).map fun x => set x c := rfl
  rw [hassign]
  cases read v <;> simp [Except.map]

theorem focuses_of {get : GatewayConfig → α} (hget : ∀ x c, get (set x c) = x)
    (hset : ∀ c, set (get c) c = c) : (Setting.of key read set).Focuses get where
  eq_of_get v c c' h heq := by
    obtain ⟨x, -, rfl⟩ := assign_of_eq_ok_iff.mp h
    rw [hget] at heq
    rw [heq, hset]
  isOk_eq v c c' := by
    have hassign (c : GatewayConfig) :
        (Setting.of key read set).assign v c = (read v).map fun x => set x c := rfl
    rw [hassign, hassign]
    cases read v <;> rfl

theorem ignores_of {get : GatewayConfig → β} (h : ∀ x c, get (set x c) = get c) :
    (Setting.of key read set).Ignores get := by
  intro v c c' hassign
  obtain ⟨x, -, rfl⟩ := assign_of_eq_ok_iff.mp hassign
  exact h x c

end Setting

/-- Each setting has a field of its own. -/
def Independent : List Setting → Prop
  | [] => True
  | s :: rest =>
    (∃ (α : Type) (get : GatewayConfig → α), s.Focuses get ∧ ∀ r ∈ rest, r.Ignores get) ∧
      Independent rest

theorem independent_settings : Independent settings := by
  have hfocus {α : Type} {key : Bytes} {read : Bytes → Except StoiError α}
      {set : α → GatewayConfig → GatewayConfig} (get : GatewayConfig → α)
      (hget : ∀ x c, get (set x c) = x) (hset : ∀ c, set (get c) c = c) {rest : List Setting}
      (hrest : ∀ r ∈ rest, r.Ignores get) :
      ∃ (α : Type) (get : GatewayConfig → α),
        (Setting.of key read set).Focuses get ∧ ∀ r ∈ rest, r.Ignores get :=
    ⟨α, get, Setting.focuses_of hget hset, hrest⟩
  refine ⟨hfocus GatewayConfig.port (fun _ _ => rfl) (fun _ => rfl) ?_,
    hfocus GatewayConfig.threadPoolSize (fun _ _ => rfl) (fun _ => rfl) ?_,
    hfocus GatewayConfig.rateLimitCapacity (fun _ _ => rfl) (fun _ => rfl) ?_,
    hfocus GatewayConfig.rateLimitRefillRate (fun _ _ => rfl) (fun _ => rfl) ?_,
    hfocus GatewayConfig.logLevel (fun _ _ => rfl) (fun _ => rfl) ?_,
    hfocus GatewayConfig.sharedSecret (fun _ _ => rfl) (fun _ => rfl) ?_,
    hfocus GatewayConfig.logFile (fun _ _ => rfl) (fun _ => rfl) ?_, trivial⟩
  all_goals
    simp only [List.forall_mem_cons, List.not_mem_nil, false_imp_iff, implies_true, and_true]
  all_goals and_intros
  all_goals exact Setting.ignores_of fun _ _ => rfl

theorem applySettings_ignores (kv : KvStore) {α : Type} {get : GatewayConfig → α} {l : List Setting}
    (h : ∀ r ∈ l, r.Ignores get) (c : GatewayConfig) : get (applySettings kv l c).2 = get c := by
  induction l generalizing c with
  | nil => rfl
  | cons s rest ih =>
    obtain ⟨hs, hrest⟩ := List.forall_mem_cons.mp h
    rw [applySettings]
    split
    · exact ih hrest c
    · rename_i v hv
      split
      · rename_i c' hc'
        rw [ih hrest, hs v c c' hc']
      · rfl

/-- After a conversion that throws, the configuration is unchanged exactly when the settings
before it keep their fields. -/
theorem applySettings_eq_self_iff {kv : KvStore} {l : List Setting} (h : Independent l)
    {c c' : GatewayConfig} {e : StoiError} (happly : applySettings kv l c = (some e, c')) :
    c' = c ↔ ∀ s ∈ l.takeWhile (Setting.readable kv), s.Keeps kv c := by
  induction l generalizing c with
  | nil => cases happly
  | cons s rest ih =>
    obtain ⟨⟨α, get, hfocus, hignore⟩, hrest⟩ := h
    rw [applySettings] at happly
    -- a key that is absent keeps the field and is not converted
    cases hv : kv s.key with
    | none =>
      have hread : s.readable kv = true := by rw [Setting.readable, hv]
      have hkeeps : s.Keeps kv c := fun v h => by rw [hv] at h; cases h
      rw [hv] at happly
      rw [List.takeWhile_cons_of_pos hread, List.forall_mem_cons, ih hrest happly]
      exact (and_iff_right hkeeps).symm
    | some v =>
      rw [hv] at happly
      dsimp only at happly
      have hread : s.readable kv = (s.assign v c).isOk := by
        rw [Setting.readable, hv]
        exact hfocus.isOk_eq v _ c
      have hkeeps : s.Keeps kv c ↔ s.assign v c = .ok c := by
        simp [Setting.Keeps, hv]
      -- the conversion throws here, or one of the settings after this one does
      cases hassign : s.assign v c with
      | error e' =>
        rw [hassign] at happly hread
        rw [List.takeWhile_cons_of_neg (by rw [hread]; simp [Except.isOk, Except.toBool])]
        simp only [Prod.mk.injEq] at happly
        simp [happly.2]
      | ok c₁ =>
        rw [hassign] at happly hread hkeeps
        dsimp only at happly
        rw [List.takeWhile_cons_of_pos (by rw [hread]; rfl), List.forall_mem_cons, hkeeps,
          Except.ok.injEq]
        constructor
        · rintro rfl
          -- the other settings do not put the field back
          have hfield : get c' = get c₁ := by
            have := applySettings_ignores kv hignore c₁
            rwa [happly] at this
          obtain rfl := hfocus.eq_of_get v _ _ hassign hfield.symm
          exact ⟨rfl, (ih hrest happly).mp rfl⟩
        · rintro ⟨rfl, hkept⟩
          exact (ih hrest happly).mpr hkept

/-- Settings that are all readable do not throw. -/
theorem applySettings_eq_none_iff (kv : KvStore) {l : List Setting} (h : Independent l)
    (c : GatewayConfig) :
    (applySettings kv l c).1 = none ↔ ∀ s ∈ l, s.readable kv = true := by
  induction l generalizing c with
  | nil => simp [applySettings]
  | cons s rest ih =>
    obtain ⟨⟨α, get, hfocus, -⟩, hrest⟩ := h
    rw [applySettings, List.forall_mem_cons, Setting.readable]
    cases kv s.key with
    | none => simpa using ih hrest c
    | some v =>
      dsimp only
      rw [hfocus.isOk_eq v _ c]
      cases s.assign v c with
      | error e => simp [Except.isOk, Except.toBool]
      | ok c₁ => simpa [Except.isOk, Except.toBool] using ih hrest c₁

/-- The file cannot be read, or every stored text is readable, or those that come before the
first one that is not are what the configuration holds. -/
def KeepsBeforeThrow (p : ConfigParser) (disk : Disk) (path : Bytes) : Prop :=
  ∀ content, disk.content path = some content →
    (∀ s ∈ settings, s.readable (p.kvStore.overriddenBy content) = true) ∨
    ∀ s ∈ settings.takeWhile (Setting.readable (p.kvStore.overriddenBy content)),
      s.Keeps (p.kvStore.overriddenBy content) p.config

theorem loadFromFile_keeps_iff (p : ConfigParser) (disk : Disk) (path : Bytes) :
    ((p.loadFromFile disk path).1 ≠ .ok true → (p.loadFromFile disk path).2.config = p.config) ↔
      KeepsBeforeThrow p disk path := by
  rw [ConfigParser.loadFromFile]
  unfold KeepsBeforeThrow
  cases hdisk : disk.content path with
  | none => simp
  | some content =>
    have hnone := applySettings_eq_none_iff (p.kvStore.overriddenBy content)
      independent_settings p.config
    simp only [foldl_getlines, ConfigParser.applyKv, Option.some.injEq, forall_eq']
    rcases happly : applySettings (p.kvStore.overriddenBy content) settings p.config with ⟨_ | e, c⟩
    · rw [happly] at hnone
      exact iff_of_true (fun h => absurd rfl h) (.inl (hnone.mp rfl))
    · rw [happly] at hnone
      have hthrows : ¬ ∀ s ∈ settings, s.readable (p.kvStore.overriddenBy content) = true :=
        fun h => absurd (hnone.mpr h) (by simp)
      simp only [hthrows, false_or, ← applySettings_eq_self_iff independent_settings happly]
      simp

/-- A load or a reload that returns false or throws leaves the configuration alone exactly
when nothing is assigned before the exception but what was there. -/
theorem failed_load_keeps_config_iff (p : ConfigParser) (disk : Disk) (path : Bytes) :
    (((p.loadFromFile disk path).1 ≠ .ok true →
        (p.loadFromFile disk path).2.config = p.config) ↔ KeepsBeforeThrow p disk path) ∧
    (((p.reload disk).1 ≠ .ok true → (p.reload disk).2.config = p.config) ↔
      KeepsBeforeThrow p disk p.filepath) := by
  refine ⟨loadFromFile_keeps_iff p disk path, ?_⟩
  rw [ConfigParser.reload]
  split_ifs with hpath
  · have hmissing : disk.content p.filepath = none := by
      rw [List.isEmpty_iff.mp hpath]
      exact disk.content_nil
    simp [KeepsBeforeThrow, hmissing]
  · exact loadFromFile_keeps_iff p disk p.filepath

/-- The port of a file whose next setting does not convert is assigned all the same. -/
theorem failed_load_changes_port :
    let disk := diskWith (ascii "port = 9000\nthread_pool_size = many\n")
    (ConfigParser.loadFromFile {} disk (ascii "gateway.conf")).1 = .error .invalidArgument ∧
    (ConfigParser.loadFromFile {} disk (ascii "gateway.conf")).2.config.port = 9000 ∧
    ({} : ConfigParser).config.port = 8080 := by
  intro disk
  exact ⟨rfl, rfl, rfl⟩

end Gateway.Config
