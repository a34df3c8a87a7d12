import Gateway.Config.ConfigParser

/-!
# What a reload keeps of the file it replaces

Neither `kv_store_` nor `config_` is cleared by a load, so a key that the new file does
not set keeps the value the old one gave it.
-/

namespace Gateway.Config

/-- The last value the lines of a file assign to each key. -/
def valuesIn (content : Bytes) : KvStore := (getlines content).foldl storeLine fun _ => none

theorem storeLine_apply (kv : KvStore) (line key : Bytes) :
    storeLine kv line key = (storeLine (fun _ => none) line key).or (kv key) := by
  rw [storeLine, storeLine]
  cases parseLine line with
  | none => rfl
  | some assignment =>
    obtain ⟨key', val⟩ := assignment
    dsimp only
    by_cases h : key = key'
    · subst h
      rw [Function.update_self, Function.update_self, Option.some_or]
    · rw [Function.update_of_ne h, Function.update_of_ne h, Option.none_or]

/-- The lines of a file override what was stored before. -/
theorem foldl_storeLine_apply (lines : List Bytes) (kv : KvStore) (key : Bytes) :
    lines.foldl storeLine kv key = (lines.foldl storeLine (fun _ => none) key).or (kv key) := by
  induction lines generalizing kv with
  | nil => rfl
  | cons line lines ih =>
    rw [List.foldl_cons, List.foldl_cons, ih, ih (storeLine _ line), storeLine_apply kv,
      Option.or_assoc]

/-! ## One field -/

variable {α : Type} {kv : KvStore} {key : Bytes} {read : Bytes → Except StoiError α}

/-- The field is left alone without a stored value, and otherwise read from it. -/
def Reads (kv : KvStore) (key : Bytes) (read : Bytes → Except StoiError α) (old new : α) : Prop :=
  match kv key with
  | none => new = old
  | some v => read v = .ok new

/-- If `a` sets the field and `b` does not, `a` sets it to its default. -/
def Drops (a b : KvStore) (key : Bytes) (read : Bytes → Except StoiError α) (default : α) : Prop :=
  ∀ v, a key = some v → b key = none → read v = .ok default

/-- A field read from one file and then from another: it ends as the second file alone
would leave it exactly when the first set it to its default, unless the second sets it. -/
theorem Reads.reload {a b : KvStore} {default x y : α} (ha : Reads a key read default x)
    (hb : Reads b key read default y) :
    ∃ z, Reads (fun k => (b k).or (a k)) key read x z ∧
      (z = y ↔ Drops a b key read default) := by
  rw [Drops]
  rw [Reads] at ha hb
  cases hkey : b key with
  | some v =>
    rw [hkey] at hb
    exact ⟨y, by simpa [Reads, hkey] using hb, by simp⟩
  | none =>
    rw [hkey] at hb
    cases hkey' : a key with
    | none =>
      rw [hkey'] at ha
      exact ⟨x, by simp [Reads, hkey, hkey'], by simp_all⟩
    | some v =>
      rw [hkey'] at ha
      exact ⟨x, by simpa [Reads, hkey, hkey'] using ha, by simp_all⟩

theorem applySettings_of {set : α → GatewayConfig → GatewayConfig} {rest : List Setting}
    {c c' : GatewayConfig} (get : GatewayConfig → α) (hset : ∀ c, set (get c) c = c) :
    applySettings kv (.of key read set :: rest) c = (none, c') ↔
      ∃ x, Reads kv key read (get c) x ∧ applySettings kv rest (set x c) = (none, c') := by
  rw [applySettings, Setting.of]
  unfold Reads
  dsimp only
  cases kv key with
  | none => simp [hset]
  | some v => cases hread : read v <;> simp [Except.map, hread]

/-- What the settings leave when no conversion throws. -/
theorem applySettings_eq_iff {c c' : GatewayConfig} :
    applySettings kv settings c = (none, c') ↔
      Reads kv (ascii "port") Setting.readPort c.port c'.port ∧
      Reads kv (ascii "thread_pool_size") stoul c.threadPoolSize c'.threadPoolSize ∧
      Reads kv (ascii "rate_limit_capacity") stoll c.rateLimitCapacity c'.rateLimitCapacity ∧
      Reads kv (ascii "rate_limit_refill_rate") stoll c.rateLimitRefillRate
        c'.rateLimitRefillRate ∧
      Reads kv (ascii "log_level") .ok c.logLevel c'.logLevel ∧
      Reads kv (ascii "shared_secret") .ok c.sharedSecret c'.sharedSecret ∧
      Reads kv (ascii "log_file") .ok c.logFile c'.logFile := by
  constructor
  · intro h
    obtain ⟨_, hport, h⟩ := (applySettings_of GatewayConfig.port fun _ => rfl).mp h
    obtain ⟨_, hthreads, h⟩ := (applySettings_of GatewayConfig.threadPoolSize fun _ => rfl).mp h
    obtain ⟨_, hcapacity, h⟩ := (applySettings_of GatewayConfig.rateLimitCapacity fun _ => rfl).mp h
    obtain ⟨_, hrate, h⟩ := (applySettings_of GatewayConfig.rateLimitRefillRate fun _ => rfl).mp h
    obtain ⟨_, hlevel, h⟩ := (applySettings_of GatewayConfig.logLevel fun _ => rfl).mp h
    obtain ⟨_, hsecret, h⟩ := (applySettings_of GatewayConfig.sharedSecret fun _ => rfl).mp h
    obtain ⟨_, hfile, h⟩ := (applySettings_of GatewayConfig.logFile fun _ => rfl).mp h
    obtain rfl := (Prod.mk.inj h).2
    exact ⟨hport, hthreads, hcapacity, hrate, hlevel, hsecret, hfile⟩
  · rintro ⟨hport, hthreads, hcapacity, hrate, hlevel, hsecret, hfile⟩
    refine (applySettings_of GatewayConfig.port fun _ => rfl).mpr ⟨_, hport, ?_⟩
    refine (applySettings_of GatewayConfig.threadPoolSize fun _ => rfl).mpr ⟨_, hthreads, ?_⟩
    refine (applySettings_of GatewayConfig.rateLimitCapacity fun _ => rfl).mpr ⟨_, hcapacity, ?_⟩
    refine (applySettings_of GatewayConfig.rateLimitRefillRate fun _ => rfl).mpr ⟨_, hrate, ?_⟩
    refine (applySettings_of GatewayConfig.logLevel fun _ => rfl).mpr ⟨_, hlevel, ?_⟩
    refine (applySettings_of GatewayConfig.sharedSecret fun _ => rfl).mpr ⟨_, hsecret, ?_⟩
    exact (applySettings_of GatewayConfig.logFile fun _ => rfl).mpr ⟨_, hfile, rfl⟩

/-! ## Reloading -/

/-- The stored values after the lines of a file. -/
def KvStore.overriddenBy (kv : KvStore) (content : Bytes) : KvStore :=
  fun key => (valuesIn content key).or (kv key)

theorem foldl_getlines (kv : KvStore) (content : Bytes) :
    (getlines content).foldl storeLine kv = kv.overriddenBy content :=
  funext fun key => foldl_storeLine_apply _ _ key

theorem overriddenBy_fresh (content : Bytes) :
    ({} : ConfigParser).kvStore.overriddenBy content = valuesIn content :=
  funext fun _ => Option.or_none

section Load
variable {p : ConfigParser} {disk : Disk} {path content : Bytes} {c : GatewayConfig}

theorem loadFromFile_of_applySettings (hdisk : disk.content path = some content)
    (hc : applySettings (p.kvStore.overriddenBy content) settings p.config = (none, c)) :
    p.loadFromFile disk path = (.ok true, ⟨path, p.kvStore.overriddenBy content, c⟩) := by
  simp only [ConfigParser.loadFromFile, hdisk, ConfigParser.applyKv, foldl_getlines, hc]

theorem applySettings_of_loadFromFile (hdisk : disk.content path = some content)
    (hload : (p.loadFromFile disk path).1 = .ok true) :
    ∃ c, applySettings (p.kvStore.overriddenBy content) settings p.config = (none, c) := by
  simp only [ConfigParser.loadFromFile, hdisk, foldl_getlines, ConfigParser.applyKv] at hload
  rcases happly : applySettings (p.kvStore.overriddenBy content) settings p.config with ⟨_ | e, c⟩
  · exact ⟨c, rfl⟩
  · rw [happly] at hload
    cases hload

end Load

/-- Every setting that the first file makes and the second does not is made to its
default. -/
def DropsOnlyDefaults (first second : Bytes) : Prop :=
  ∀ s ∈ settings, ∀ v, valuesIn first s.key = some v → valuesIn second s.key = none →
    s.assign v {} = .ok {}

theorem assign_of_eq_ok {set : α → GatewayConfig → GatewayConfig} {c : GatewayConfig}
    (get : GatewayConfig → α) (hset : ∀ x, get (set x c) = x) (hget : set (get c) c = c)
    (v : Bytes) : (Setting.of key read set).assign v c = .ok c ↔ read v = .ok (get c) := by
  have hassign : (Setting.of key read set).assign v c = (read v).map fun x => set x c := rfl
  rw [hassign]
  cases read v with
  | error e => simp [Except.map]
  | ok x =>
    simp only [Except.map, Except.ok.injEq]
    constructor
    · intro h
      rw [← hset x, h]
    · rintro rfl
      exact hget

theorem dropsOnlyDefaults_iff {first second : Bytes} :
    DropsOnlyDefaults first second ↔
      Drops (valuesIn first) (valuesIn second) (ascii "port") Setting.readPort 8080 ∧
      Drops (valuesIn first) (valuesIn second) (ascii "thread_pool_size") stoul 4 ∧
      Drops (valuesIn first) (valuesIn second) (ascii "rate_limit_capacity") stoll 100 ∧
      Drops (valuesIn first) (valuesIn second) (ascii "rate_limit_refill_rate") stoll 50 ∧
      Drops (valuesIn first) (valuesIn second) (ascii "log_level") .ok (ascii "INFO") ∧
      Drops (valuesIn first) (valuesIn second) (ascii "shared_secret") .ok
        (ascii "qualcomm_gateway_s3cr3t") ∧
      Drops (valuesIn first) (valuesIn second) (ascii "log_file") .ok (ascii "gateway.log") := by
  have hport (v : Bytes) : Setting.port.assign v {} = .ok {} ↔ Setting.readPort v = .ok 8080 :=
    assign_of_eq_ok GatewayConfig.port (fun _ => rfl) rfl v
  have hthreads (v : Bytes) : Setting.threadPoolSize.assign v {} = .ok {} ↔ stoul v = .ok 4 :=
    assign_of_eq_ok GatewayConfig.threadPoolSize (fun _ => rfl) rfl v
  have hcapacity (v : Bytes) :
      Setting.rateLimitCapacity.assign v {} = .ok {} ↔ stoll v = .ok 100 :=
    assign_of_eq_ok GatewayConfig.rateLimitCapacity (fun _ => rfl) rfl v
  have hrate (v : Bytes) :
      Setting.rateLimitRefillRate.assign v {} = .ok {} ↔ stoll v = .ok 50 :=
    assign_of_eq_ok GatewayConfig.rateLimitRefillRate (fun _ => rfl) rfl v
  have hlevel (v : Bytes) : Setting.logLevel.assign v {} = .ok {} ↔
      (.ok v : Except StoiError Bytes) = .ok (ascii "INFO") :=
    assign_of_eq_ok GatewayConfig.logLevel (fun _ => rfl) rfl v
  have hsecret (v : Bytes) : Setting.sharedSecret.assign v {} = .ok {} ↔
      (.ok v : Except StoiError Bytes) = .ok (ascii "qualcomm_gateway_s3cr3t") :=
    assign_of_eq_ok GatewayConfig.sharedSecret (fun _ => rfl) rfl v
  have hfile (v : Bytes) : Setting.logFile.assign v {} = .ok {} ↔
      (.ok v : Except StoiError Bytes) = .ok (ascii "gateway.log") :=
    assign_of_eq_ok GatewayConfig.logFile (fun _ => rfl) rfl v
  simp only [DropsOnlyDefaults, settings, List.forall_mem_cons, List.not_mem_nil, false_imp_iff,
    implies_true, and_true, hport, hthreads, hcapacity, hrate, hlevel, hsecret, hfile]
  rfl

/-- After a file is replaced and reloaded, the configuration is that of a fresh load of the
new file exactly when every setting the new file dropped had its default value. -/
theorem reload_config_eq_fresh_iff (path first second : Bytes) (disk disk' : Disk)
    (hfirst : disk.content path = some first) (hsecond : disk'.content path = some second)
    (hload : (ConfigParser.loadFromFile {} disk path).1 = .ok true)
    (hload' : (ConfigParser.loadFromFile {} disk' path).1 = .ok true) :
    ((ConfigParser.loadFromFile {} disk path).2.reload disk').2.config =
        (ConfigParser.loadFromFile {} disk' path).2.config ↔
      DropsOnlyDefaults first second := by
  obtain ⟨c, hc⟩ := applySettings_of_loadFromFile hfirst hload
  obtain ⟨c', hc'⟩ := applySettings_of_loadFromFile hsecond hload'
  rw [loadFromFile_of_applySettings hfirst hc, loadFromFile_of_applySettings hsecond hc',
    overriddenBy_fresh]
  rw [overriddenBy_fresh] at hc hc'
  obtain ⟨h₁, h₂, h₃, h₄, h₅, h₆, h₇⟩ := applySettings_eq_iff.mp hc
  obtain ⟨h₁', h₂', h₃', h₄', h₅', h₆', h₇'⟩ := applySettings_eq_iff.mp hc'
  obtain ⟨port, hport, hportEq⟩ := h₁.reload h₁'
  obtain ⟨threads, hthreads, hthreadsEq⟩ := h₂.reload h₂'
  obtain ⟨capacity, hcapacity, hcapacityEq⟩ := h₃.reload h₃'
  obtain ⟨rate, hrate, hrateEq⟩ := h₄.reload h₄'
  obtain ⟨level, hlevel, hlevelEq⟩ := h₅.reload h₅'
  obtain ⟨secret, hsecret, hsecretEq⟩ := h₆.reload h₆'
  obtain ⟨file, hfile, hfileEq⟩ := h₇.reload h₇'
  -- no conversion throws in the reload: each text it reads was read before
  let reloaded : GatewayConfig := ⟨port, threads, capacity, rate, level, secret, file⟩
  have happly : applySettings ((valuesIn first).overriddenBy second) settings c =
      (none, reloaded) :=
    applySettings_eq_iff.mpr ⟨hport, hthreads, hcapacity, hrate, hlevel, hsecret, hfile⟩
  have hpath : ¬ path.isEmpty = true := by
    rintro hpath
    rw [List.isEmpty_iff.mp hpath, disk.content_nil] at hfirst
    cases hfirst
  have hreload := loadFromFile_of_applySettings (p := ⟨path, valuesIn first, c⟩) hsecond happly
  rw [ConfigParser.reload, if_neg hpath, hreload, dropsOnlyDefaults_iff, ← hportEq, ← hthreadsEq,
    ← hcapacityEq, ← hrateEq, ← hlevelEq, ← hsecretEq, ← hfileEq, ← GatewayConfig.mk.injEq]

/-- A disk with one file, `gateway.conf`. -/
def diskWith (content : Bytes) : Disk where
  content path := if path = ascii "gateway.conf" then some content else none
  content_nil := rfl

/-- The first file sets the port to its default, the second leaves it out. -/
theorem reload_config_eq_fresh_default :
    let disk := diskWith (ascii "port = 8080\nthread_pool_size = 2\n")
    let disk' := diskWith (ascii "thread_pool_size = 16\n")
    ((ConfigParser.loadFromFile {} disk (ascii "gateway.conf")).2.reload disk').2.config =
      (ConfigParser.loadFromFile {} disk' (ascii "gateway.conf")).2.config := by
  intro disk disk'
  apply (reload_config_eq_fresh_iff (ascii "gateway.conf") _ _ disk disk' rfl rfl rfl rfl).mpr
  rw [dropsOnlyDefaults_iff]
  have hunset {α : Type} {key : Bytes} {read : Bytes → Except StoiError α} {default : α}
      (h : valuesIn (ascii "port = 8080\nthread_pool_size = 2\n") key = none) :
      Drops (valuesIn (ascii "port = 8080\nthread_pool_size = 2\n"))
        (valuesIn (ascii "thread_pool_size = 16\n")) key read default := by
    intro v hv
    rw [h] at hv
    cases hv
  refine ⟨fun v hv _ => ?_, fun v _ hnone => ?_, hunset rfl, hunset rfl, hunset rfl, hunset rfl,
    hunset rfl⟩
  · obtain rfl : ascii "8080" = v := Option.some.inj hv
    rfl
  · have hset : valuesIn (ascii "thread_pool_size = 16\n") (ascii "thread_pool_size") =
      some (ascii "16") := rfl
    rw [hset] at hnone
    cases hnone

/-- A port of 9000 survives the reload of a file that does not set the port. -/
theorem reload_keeps_dropped_port :
    let disk := diskWith (ascii "port = 9000\n")
    let disk' := diskWith (ascii "thread_pool_size = 16\n")
    (ConfigParser.loadFromFile {} disk (ascii "gateway.conf")).1 = .ok true ∧
    (ConfigParser.loadFromFile {} disk' (ascii "gateway.conf")).1 = .ok true ∧
    ((ConfigParser.loadFromFile {} disk (ascii "gateway.conf")).2.reload disk').2.config ≠
      (ConfigParser.loadFromFile {} disk' (ascii "gateway.conf")).2.config := by
  intro disk disk'
  refine ⟨rfl, rfl, fun heq => ?_⟩
  have hreload : ((ConfigParser.loadFromFile {} disk (ascii "gateway.conf")).2.reload
      disk').2.config.port = 9000 := rfl
  have hfresh : (ConfigParser.loadFromFile {} disk' (ascii "gateway.conf")).2.config.port = 8080 :=
    rfl
  rw [heq, hfresh] at hreload
  exact absurd hreload (by decide)

end Gateway.Config
