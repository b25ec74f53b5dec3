import Okc.Core.Identity
import Okc.Core.Validate

/-!
# The project manifest and its hashes (`okc-app/src/lib.rs:160-230`, `project_state.rs:20-150`, `1300-1360`)

`ProjectManifest` with its validator, the route table `AiRouteConfig`, the two validators that guard
journal rows, and the digests that name runs, tasks and recordings.

* A digest of several parts puts each part's length, as eight bytes, before the part
  (`digest`); a digest of one byte string does not (`rawHash`).
* `product_version` is written and never read, and is left out.

Results:
* `validate_eq_ok`: what the manifest validator accepts is `ValidManifest`.
* `digest_inj`: a digest of one part determines the part where SHA-256 separates the inputs.
-/

namespace Okc.App

open Okc.Lib Okc.Core

/-- `ProviderErrorKind`. -/
inductive ProviderErrorKind
  | authentication
  | authorization
  | rateLimited
  | timeout
  | contextLimit
  | refusal
  | invalidRequest
  | invalidResponse
  | responseTooLarge
  | transport
  | cancelled
  | unsupportedCapability
  | remotePolicy
deriving DecidableEq

/-- `AppError`, with the kinds the modelled functions return. -/
inductive AppError
  | io (message : String)
  | json (message : String)
  | sqlite (message : String)
  | core (error : OkcError)
  | provider (kind : ProviderErrorKind)
  | credential (message : String)
  | invalidProject (message : String)
  | locked
deriving DecidableEq

/-- `?` on a core result. -/
def liftCore {α : Type} (x : Except OkcError α) : Except AppError α := x.mapError .core

theorem liftCore_eq_ok {α : Type} {x : Except OkcError α} {a : α} :
    liftCore x = .ok a ↔ x = .ok a := by
  cases x with
  | error e => simp [liftCore, Except.mapError]
  | ok b => simp [liftCore, Except.mapError]

/-! ## Routes -/

inductive AiRole
  | embedding
  | organizer
  | synthesis
  | critic
deriving DecidableEq

structure AiRouteConfig where
  default : String
  embedding : Option String
  organizer : Option String
  synthesis : Option String
  critic : Option String
deriving DecidableEq

/-- The profile name test of `AiRouteConfig::validate`. -/
def ProfileName (profile : String) : Prop :=
  profile ≠ "" ∧ len profile ≤ 128 ∧
    profile.toList.all fun c => c.isAlphanum || c == '-' || c == '_'

instance (profile : String) : Decidable (ProfileName profile) := by
  unfold ProfileName
  infer_instance

namespace AiRouteConfig

/-- `impl Default for AiRouteConfig`. -/
def initial : AiRouteConfig := ⟨"default", none, none, none, none⟩

/-- The names a configuration mentions, in the order of the validator's loop. -/
def profiles (routes : AiRouteConfig) : List String :=
  [some routes.default, routes.embedding, routes.organizer, routes.synthesis,
    routes.critic].filterMap id

def validate (routes : AiRouteConfig) : Except AppError Unit :=
  forM routes.profiles fun profile =>
    reject (¬ ProfileName profile)
      (.invalidProject ("invalid AI profile name `" ++ profile ++ "`"))

/-- `profile_for`. -/
def profileFor (routes : AiRouteConfig) (role : AiRole) : String :=
  (match role with
    | .embedding => routes.embedding
    | .organizer => routes.organizer
    | .synthesis => routes.synthesis
    | .critic => routes.critic).getD routes.default

/-- `set`: the routes with one of them replaced, if they validate. -/
def set (routes : AiRouteConfig) (role : Option AiRole) (profile : String) :
    Except AppError AiRouteConfig := do
  let next : AiRouteConfig := match role with
    | none => { routes with default := profile }
    | some .embedding => { routes with embedding := some profile }
    | some .organizer => { routes with organizer := some profile }
    | some .synthesis => { routes with synthesis := some profile }
    | some .critic => { routes with critic := some profile }
  next.validate
  .ok next

def toValue (routes : AiRouteConfig) : Value :=
  .object [("default", .str routes.default), ("embedding", .option .str routes.embedding),
    ("organizer", .option .str routes.organizer), ("synthesis", .option .str routes.synthesis),
    ("critic", .option .str routes.critic)]

end AiRouteConfig

/-! ## The manifest -/

/-- `validate_bcp47`. -/
def validateBcp47 (language : String) : Except AppError Unit :=
  reject (language = "" ∨ 63 < len language ∨ language.toList.head? = some '-' ∨
      language.toList.getLast? = some '-' ∨
      (language.toList.splitOn '-').any fun part =>
        part.isEmpty || 8 < part.length || !part.all Char.isAlphanum)
    (.invalidProject ("invalid BCP-47 language tag `" ++ language ++ "`"))

structure SourceBinding where
  sourceId : SourceId
  ownerDisplayName : Option String
  path : String
  snapshotId : Option String
deriving DecidableEq

structure ProjectManifest where
  formatFamily : String
  schemaVersion : Nat
  name : String
  curatorId : String
  policyVersion : String
  language : Option String
  aiRoutes : AiRouteConfig
  sources : List SourceBinding
deriving DecidableEq

def projectSchemaVersion : Nat := 3

/-- `ProjectManifest::validate`. -/
def ProjectManifest.validate (manifest : ProjectManifest) : Except AppError Unit := do
  reject (manifest.formatFamily ≠ "okc" ∨ manifest.schemaVersion ≠ projectSchemaVersion)
    (.invalidProject ("expected okc schema " ++ Nat.repr projectSchemaVersion ++ ", got " ++
      manifest.formatFamily ++ " schema " ++ Nat.repr manifest.schemaVersion))
  reject (trim manifest.name = "" ∨ trim manifest.curatorId = "" ∨
      trim manifest.policyVersion = "" ∨
      (manifest.name.toList ++ manifest.curatorId.toList ++ manifest.policyVersion.toList).any
        isControl)
    (.invalidProject "name, curator_id, or policy_version is empty or unsafe")
  forM manifest.language.toList validateBcp47
  manifest.aiRoutes.validate
  reject (10 < manifest.sources.length) (.invalidProject "a project supports at most 10 sources")
  reject (¬ (manifest.sources.map SourceBinding.sourceId).Nodup)
    (.invalidProject "source IDs must be unique within a project")

/-- What `validate` accepts. -/
structure ValidManifest (manifest : ProjectManifest) : Prop where
  formatFamily : manifest.formatFamily = "okc"
  schemaVersion : manifest.schemaVersion = projectSchemaVersion
  name : trim manifest.name ≠ ""
  curatorId : trim manifest.curatorId ≠ ""
  policyVersion : trim manifest.policyVersion ≠ ""
  nameSafe : ∀ c ∈ manifest.name.toList, isControl c = false
  curatorSafe : ∀ c ∈ manifest.curatorId.toList, isControl c = false
  policySafe : ∀ c ∈ manifest.policyVersion.toList, isControl c = false
  language : ∀ l ∈ manifest.language, validateBcp47 l = .ok ()
  aiRoutes : manifest.aiRoutes.validate = .ok ()
  sources : manifest.sources.length ≤ 10
  sourceIds : (manifest.sources.map SourceBinding.sourceId).Nodup

/-- **The manifest validator accepts exactly the valid manifests.** -/
theorem validate_eq_ok {manifest : ProjectManifest} :
    manifest.validate = .ok () ↔ ValidManifest manifest := by
  simp only [ProjectManifest.validate, bind_unit_eq_ok, reject_eq_ok, forM_eq_ok, not_or,
    ne_eq, not_not, not_lt, List.any_eq_true, List.mem_append, not_exists, not_and,
    Bool.not_eq_true, Option.mem_toList]
  constructor
  · rintro ⟨⟨hf, hs⟩, ⟨hn, hc, hp, hsafe⟩, hl, hr, hlen, hid⟩
    exact ⟨hf, hs, hn, hc, hp, fun c h => hsafe c (.inl (.inl h)),
      fun c h => hsafe c (.inl (.inr h)), fun c h => hsafe c (.inr h), hl, hr, hlen, hid⟩
  · intro h
    refine ⟨⟨h.formatFamily, h.schemaVersion⟩,
      ⟨h.name, h.curatorId, h.policyVersion, ?_⟩, h.language, h.aiRoutes, h.sources, h.sourceIds⟩
    rintro c ((hc | hc) | hc)
    · exact h.nameSafe c hc
    · exact h.curatorSafe c hc
    · exact h.policySafe c hc

/-! ## Guards of the journal's columns -/

/-- `validate_hex_hash`. -/
def validateHexHash (label value : String) : Except AppError Unit :=
  reject (len value ≠ 64 ∨ ¬ value.toList.all fun c => c.isDigit || ('a' ≤ c && c ≤ 'f'))
    (.invalidProject (label ++ " must be a lowercase SHA-256 value"))

/-- `validate_identifier`. -/
def validateIdentifier (label value : String) : Except AppError Unit :=
  reject (value = "" ∨ 512 < len value ∨ value.toList.any isControl ∨ '\n' ∈ value.toList ∨
      '\r' ∈ value.toList)
    (.invalidProject ("invalid " ++ label))

/-! ## Digests -/

/-- `usize::to_be_bytes`. -/
def lengthBytes (n : Nat) : Bytes := (List.range 8).map fun i => UInt8.ofNat (n / 256 ^ (7 - i))

@[simp] theorem length_lengthBytes (n : Nat) : (lengthBytes n).length = 8 := by
  simp [lengthBytes]

/-- The input of `digest`. -/
def digestInput (domain : String) (parts : List Bytes) : Bytes :=
  utf8 domain ++ parts.flatMap fun part => lengthBytes part.length ++ part

/-- `digest`. -/
def digest (X : Externals) (domain : String) (parts : List Bytes) : ContentHash :=
  X.sha256 (digestInput domain parts)

/-- `raw_hash` and `domain_digest`. -/
def rawHash (X : Externals) (domain : String) (bytes : Bytes) : ContentHash :=
  X.fromDomainBytes domain bytes

theorem digestInput_singleton_inj {domain : String} {a b : Bytes}
    (h : digestInput domain [a] = digestInput domain [b]) : a = b := by
  have h := List.append_cancel_left h
  simp only [List.flatMap_cons, List.flatMap_nil, List.append_nil] at h
  exact (List.append_inj h (by simp)).2

/-- A digest of one part determines it where SHA-256 separates the inputs. -/
theorem digest_inj {X : Externals} {inputs : Set Bytes} (hX : X.NoCollisions inputs)
    {domain : String} {a b : Bytes} (ha : digestInput domain [a] ∈ inputs)
    (hb : digestInput domain [b] ∈ inputs) (h : digest X domain [a] = digest X domain [b]) :
    a = b :=
  digestInput_singleton_inj (hX ha hb h)

end Okc.App
