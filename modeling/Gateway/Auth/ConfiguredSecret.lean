import Gateway.Auth.AuthSession
import Gateway.Config.HotReload

/-!
# The secret of a loaded configuration

`validate` does not look at the shared secret, and a line may assign it nothing.
-/

namespace Gateway.Auth
open Config

/-- The assignments of a file, in order. -/
def assignments (content : Bytes) : List (Bytes × Bytes) := (getlines content).filterMap parseLine

/-- The last line of the file that assigns the secret leaves it blank. -/
def BlanksSecret (content : Bytes) : Prop :=
  (assignments content).reverse.lookup (ascii "shared_secret") = some []

instance (content : Bytes) : Decidable (BlanksSecret content) :=
  inferInstanceAs (Decidable (_ = _))

theorem foldl_storeLine_lookup (lines : List Bytes) (key : Bytes) :
    lines.foldl storeLine (fun _ => none) key = (lines.filterMap parseLine).reverse.lookup key := by
  induction lines using List.reverseRecOn with
  | nil => rfl
  | append_singleton lines line ih =>
    rw [List.foldl_append, List.foldl_cons, List.foldl_nil, List.filterMap_append, storeLine]
    cases hline : parseLine line with
    | none => simp [hline, ih]
    | some assignment =>
      obtain ⟨key', val⟩ := assignment
      simp only [List.filterMap_cons, hline, List.filterMap_nil, List.reverse_append,
        List.reverse_singleton, List.singleton_append, List.lookup_cons]
      by_cases h : key = key'
      · subst h
        simp
      · have hbeq : (key == key') = false := beq_eq_false_iff_ne.mpr h
        simp [h, hbeq, ih]

theorem valuesIn_eq_lookup (content key : Bytes) :
    valuesIn content key = (assignments content).reverse.lookup key :=
  foldl_storeLine_lookup _ _

/-- A token is computed exactly from a secret that is not empty. -/
theorem isSome_computeToken_iff (nonce : Nonce) (secret : Bytes) :
    (computeToken nonce secret).isSome = true ↔ secret ≠ [] := by
  constructor
  · rintro h rfl
    have hnone : computeToken nonce [] = none := rfl
    rw [hnone] at h
    simp at h
  · intro h
    rw [computeToken_eq h, Option.isSome_some]

/-- After a load, every token is defined exactly when the file leaves the default secret alone
or assigns it something. -/
theorem configured_secret_authenticates_iff (path content : Bytes) (disk : Disk)
    (hdisk : disk.content path = some content)
    (hload : (ConfigParser.loadFromFile {} disk path).1 = .ok true) (nonce : Nonce) :
    (computeToken nonce (ConfigParser.loadFromFile {} disk path).2.config.sharedSecret).isSome =
        true ↔ ¬BlanksSecret content := by
  obtain ⟨c, hc⟩ := applySettings_of_loadFromFile hdisk hload
  rw [loadFromFile_of_applySettings hdisk hc, isSome_computeToken_iff]
  rw [overriddenBy_fresh] at hc
  obtain ⟨-, -, -, -, -, hsecret, -⟩ := applySettings_eq_iff.mp hc
  rw [Reads, valuesIn_eq_lookup] at hsecret
  rw [BlanksSecret]
  dsimp only
  cases hlast : (assignments content).reverse.lookup (ascii "shared_secret") with
  | none =>
    rw [hlast] at hsecret
    dsimp only at hsecret
    rw [hsecret]
    exact iff_of_true (by decide) (by simp)
  | some v =>
    rw [hlast] at hsecret
    dsimp only at hsecret
    rw [← Except.ok.inj hsecret, ne_eq, Option.some.injEq]

/-- The last of two assignments counts. -/
theorem configured_secret_authenticates_iff_reassigned :
    let disk := diskWith (ascii "shared_secret =\nshared_secret = k\n")
    (computeToken (fun _ => 0) (ConfigParser.loadFromFile {} disk
      (ascii "gateway.conf")).2.config.sharedSecret).isSome = true := by
  intro disk
  apply (configured_secret_authenticates_iff (ascii "gateway.conf") _ disk rfl rfl _).mpr
  decide

/-- A valid configuration with which no token can be computed. -/
theorem blank_secret_validates :
    let disk := diskWith (ascii "shared_secret =\n")
    (ConfigParser.loadFromFile {} disk (ascii "gateway.conf")).1 = .ok true ∧
    (ConfigParser.loadFromFile {} disk (ascii "gateway.conf")).2.validate = true ∧
    computeToken (fun _ => 0) (ConfigParser.loadFromFile {} disk
      (ascii "gateway.conf")).2.config.sharedSecret = none :=
  ⟨rfl, rfl, rfl⟩

end Gateway.Auth
