import Okc.App.Generation

/-!
# Stored credentials (`provider_service.rs:235-328`, `395-411`, `okc-ai/src/lib.rs:255-491`)

Profiles are kept in a TOML file and their secrets in the keychain, by account. Changing a profile
changes both, one after the other, and each step can fail.

* The TOML printer and parser are parameters (`Toml`), with the round trip as their law, as are the
  parsers of URIs and of IP addresses (`Endpoints`).
* `Mishaps` says which steps of a call fail. A step that fails changes nothing, and the file is
  replaced in one step. `exists` may also fail to see the file.
* `Desk.deleted` lists the accounts whose secret the call has deleted.

Results:
* `upsertProfile_eq`, `removeProfile_eq`: the call as a case analysis.
* **`calls_spared_iff`**: when every call of a run spares what the configuration refers to.
-/

namespace Okc.App

open Okc.Lib Okc.Core

/-! ## Profiles -/

/-- `ProviderProfile`, with the fields that a client does not need. -/
structure StoredProfile extends ProviderProfile where
  apiKeyEnv : Option String
  osKeychain : Option String
  timeoutMs : UInt64
deriving DecidableEq

/-- `ProviderConfig`, as the file has it. -/
structure StoredConfig where
  schemaVersion : Nat
  profiles : List (String × StoredProfile)
  sorted : Sorted profiles
deriving DecidableEq

/-- The parsers that are not the program's own. -/
structure Endpoints where
  /-- `Uri::from_str`: the scheme and the host. -/
  parseUri : String → Option (Option String × Option String)
  /-- `IpAddr::from_str` and `is_loopback`. -/
  isLoopbackAddress : String → Bool

/-- `toml::to_string_pretty` and `toml::from_str`. -/
structure Toml where
  print : StoredConfig → Option String
  parse : String → Option StoredConfig
  parse_print : ∀ config text, print config = some text → parse text = some config

/-- `ProviderService`, with what it is built on. -/
structure ProviderService where
  toml : Toml
  endpoints : Endpoints
  /-- `fixed_config`. -/
  fixedConfig : Option StoredConfig

/-! ## Checks -/

/-- `is_secret_option_name`. -/
def isSecretOptionName (name : String) : Bool :=
  String.ofList ((name.toList.filter Char.isAlphanum).map Char.toLower) ∈
    ["apikey", "authorization", "auth", "bearertoken", "accesstoken", "secret", "password",
      "credential", "credentials"]

mutual
/-- `nested_credential_option_path`. -/
def nestedCredentialOptionPath : Json → Option String
  | .obj values => (credentialOptionPath values).map fun path => "." ++ path
  | .arr values => credentialItemPath 0 values
  | .null => none
  | .bool _ => none
  | .num _ => none
  | .str _ => none

/-- `credential_option_path`. -/
def credentialOptionPath : List (String × Json) → Option String
  | [] => none
  | (key, value) :: rest =>
    (if isSecretOptionName key then some key
      else (nestedCredentialOptionPath value).map fun suffix => key ++ suffix).or
        (credentialOptionPath rest)

/-- The items of an array, from an index on. -/
def credentialItemPath (index : Nat) : List Json → Option String
  | [] => none
  | value :: rest =>
    ((nestedCredentialOptionPath value).map fun suffix =>
      "[" ++ Nat.repr index ++ "]" ++ suffix).or (credentialItemPath (index + 1) rest)
end

/-- The entries of `options`. -/
def optionEntries : Json → List (String × Json)
  | .obj values => values
  | _ => []

/-- `host.strip_prefix('[')` and `strip_suffix(']')`, or the host. -/
def stripBrackets (host : String) : String :=
  match host.toList with
  | '[' :: rest => if rest.getLast? = some ']' then String.ofList rest.dropLast else host
  | _ => host

/-- `is_loopback_host`. -/
def isLoopbackHost (E : Endpoints) (host : String) : Bool :=
  asciiLower host == "localhost" || E.isLoopbackAddress (stripBrackets host)

/-- `validate_endpoint`. -/
def validateEndpoint (E : Endpoints) (endpoint : String) : Except ProviderError Unit := do
  let authority := ((cutAt "://".toList endpoint.toList).map fun cut =>
    cut.2.takeWhile fun c => c != '/').getD []
  reject ('@' ∈ authority) ⟨.remotePolicy, "provider endpoint must not contain credentials"⟩
  match E.parseUri endpoint with
  | none => .error (invalidRequest "provider endpoint is not a valid absolute URI")
  | some (scheme, host) => do
    let scheme := scheme.getD ""
    let host := host.getD ""
    reject (host = "" ∨ scheme ∉ ["http", "https"])
      (invalidRequest "provider endpoint requires an HTTP(S) scheme and host")
    reject (scheme ≠ "https" ∧ ¬ isLoopbackHost E host)
      ⟨.remotePolicy, "non-loopback provider endpoints require HTTPS"⟩

/-- A name that is not empty, has at most `limit` bytes, and only ASCII letters and digits and the
characters of `extra`. -/
def BoundedName (limit : Nat) (extra : List Char) (name : String) : Prop :=
  name ≠ "" ∧ (utf8 name).length ≤ limit ∧ name.toList.all fun c => c.isAlphanum || extra.contains c

instance (limit : Nat) (extra : List Char) (name : String) :
    Decidable (BoundedName limit extra name) :=
  inferInstanceAs (Decidable (_ ∧ _ ∧ _))

/-- `ProviderProfile::validate`. -/
def StoredProfile.validate (E : Endpoints) (p : StoredProfile) : Except ProviderError Unit := do
  reject (trim p.model = "" ∨ 512 < (utf8 p.model).length ∨ p.model.toList.any isControl)
    (invalidRequest "model must contain 1..=512 non-control bytes")
  reject (p.timeoutMs = 0 ∨ p.maxResponseBytes = 0 ∨ p.maxInputBytes = 0 ∨ p.maxBatchItems = 0)
    (invalidRequest "provider resource limits must be non-zero")
  match credentialOptionPath (optionEntries p.options.json) with
  | some key => .error (invalidRequest ("provider option \x60" ++ key ++
      "\x60 looks credential-bearing; use api_key_env or os_keychain"))
  | none => .ok ()
  validateEndpoint E p.endpoint
  reject (∃ name ∈ p.apiKeyEnv, ¬ BoundedName 256 ['_'] name)
    (invalidRequest "api_key_env must be an environment variable name")
  reject (p.apiKeyEnv.isSome ∧ p.osKeychain.isSome)
    (invalidRequest "provider profile must use either api_key_env or os_keychain, not both")
  reject (∃ account ∈ p.osKeychain, ¬ BoundedName 256 ['-', '_', '.'] account)
    (invalidRequest "os_keychain must be a bounded account name")

/-- `?` on a provider's result. -/
def liftProvider {α : Type} (x : Except ProviderError α) : Except AppError α :=
  x.mapError fun e => .provider e.kind

theorem liftProvider_eq_ok {α : Type} {x : Except ProviderError α} {a : α} :
    liftProvider x = .ok a ↔ x = .ok a := by
  cases x <;> simp [liftProvider, Except.mapError]

/-- `validate_profile_name` of the service. -/
def validateProfileName (name : String) : Except AppError Unit :=
  reject (¬ BoundedName 128 ['-', '_'] name) (.invalidProject "provider profile name is invalid")

/-- `ProviderConfig::from_toml`. -/
def fromToml (S : ProviderService) (text : String) : Except ProviderError StoredConfig :=
  match S.toml.parse text with
  | none => .error (invalidRequest "invalid provider configuration")
  | some config => do
    reject (config.schemaVersion ≠ aiSchemaVersion)
      (invalidRequest ("expected provider schema 3, got " ++ Nat.repr config.schemaVersion))
    config.profiles.forM fun entry => do
      reject (¬ BoundedName 128 ['-', '_'] entry.1)
        (invalidRequest ("invalid provider profile name \x60" ++ entry.1 ++ "\x60"))
      entry.2.validate S.endpoints
    .ok config

/-- `ProviderConfig::to_toml`. -/
def toToml (S : ProviderService) (config : StoredConfig) : Except ProviderError String := do
  reject (config.schemaVersion ≠ aiSchemaVersion)
    (invalidRequest "provider configuration has a stale schema version")
  match S.toml.print config with
  | some text => .ok text
  | none => .error ⟨.invalidResponse, "could not serialize provider configuration"⟩

/-! ## The steps of a call -/

inductive CredentialError
  | locked
  | unavailable
  | notFound
  | failed
deriving DecidableEq

/-- Its `Display`. -/
def CredentialError.text : CredentialError → String
  | .locked => "OS credential store is locked or access was denied"
  | .unavailable => "OS credential store is unavailable on this system"
  | .notFound => "credential entry was not found"
  | .failed => "OS credential store operation failed"

/-- The steps of `save_config` that touch the disk; `protect` is `set_private_file`. -/
inductive SaveStep
  | createDir
  | stage
  | write
  | sync
  | persist
  | protect
deriving DecidableEq

/-- What `load_config` meets: whether `exists` misses the file, and the error of reading it. -/
structure Look where
  hidden : Bool
  unreadable : Option String

/-- Which steps of a call fail. -/
structure Mishaps where
  firstLook : Look
  secondLook : Look
  store : Option CredentialError
  saving : SaveStep → Option String
  delete : Option CredentialError

/-- The configuration file and the keychain entries of the service. -/
structure Desk where
  file : Option String
  keychain : String → Option String
  deleted : List String

abbrev Task (α : Type) := Act Desk AppError α

section

variable (S : ProviderService) (m : Mishaps)

/-- A step of `save_config`. -/
def Mishaps.check (step : SaveStep) : Except AppError Unit :=
  match m.saving step with
  | some message => .error (.io message)
  | none => .ok ()

def emptyConfig : StoredConfig := ⟨aiSchemaVersion, [], List.Pairwise.nil⟩

/-- `profiles.insert`. -/
def StoredConfig.insert (config : StoredConfig) (name : String) (p : StoredProfile) :
    StoredConfig :=
  ⟨config.schemaVersion, insertKey name p config.profiles, sorted_insertKey name p config.sorted⟩

/-- `profiles.remove`. -/
def StoredConfig.remove (config : StoredConfig) (name : String) : StoredConfig :=
  ⟨config.schemaVersion, config.profiles.filter fun e => e.1 != name,
    config.sorted.sublist (List.filter_sublist.map Prod.fst)⟩

/-- What `load_config` returns. -/
def reading (look : Look) (file : Option String) : Except AppError StoredConfig :=
  match S.fixedConfig, file with
  | some config, _ => .ok config
  | none, none => .ok emptyConfig
  | none, some text =>
    if look.hidden then .ok emptyConfig
    else match look.unreadable with
      | some message => .error (.io message)
      | none => liftProvider (fromToml S text)

/-- `load_config`. -/
def loadConfig (look : Look) : Task StoredConfig := fun s => (reading S look s.file, s)

/-- `credential_store.store`. -/
def storeCredential (account secret : String) : Task Unit := fun s =>
  match m.store with
  | some e => (.error (.credential e.text), s)
  | none => (.ok (), { s with keychain := Function.update s.keychain account (some secret) })

/-- `credential_store.delete`. -/
def deleteCredential (account : String) : Act Desk CredentialError Unit := fun s =>
  match m.delete, s.keychain account with
  | some e, _ => (.error e, s)
  | none, none => (.error .notFound, s)
  | none, some _ => (.ok (), { s with
      keychain := Function.update s.keychain account none
      deleted := s.deleted ++ [account] })

/-- `let _ = credential_store.delete(..)`. -/
def discardCredential (account : String) : Task Unit := do
  let _ ← Act.attempt (deleteCredential m account)
  pure ()

/-- `save_config`, up to the replacement of the file. -/
def stagedText (config : StoredConfig) : Except AppError String := do
  m.check .createDir
  let content ← liftProvider (toToml S config)
  m.check .stage
  m.check .write
  m.check .sync
  m.check .persist
  .ok content

/-- The file is replaced. -/
def replaceFile (content : String) : Task Unit := fun s => (.ok (), { s with file := some content })

/-- `save_config`. -/
def saveConfig (config : StoredConfig) : Task Unit := do
  Act.lift (reject S.fixedConfig.isSome
    (.invalidProject "embedded provider profiles are immutable"))
  let content ← Act.lift (stagedText S m config)
  replaceFile content
  Act.lift (m.check .protect)

/-! ## The calls -/

/-- The profile with an account for its secret. -/
def withAccount (name : String) (p : StoredProfile) (secret : Option String) : StoredProfile :=
  if secret.isSome ∧ p.osKeychain = none then { p with osKeychain := some name } else p

/-- The secret is stored, if there is one. -/
def storeSecret (p : StoredProfile) : Option String → Task Unit
  | none => pure ()
  | some secret =>
    match p.osKeychain with
    | none => Act.fail (.invalidProject
        "native secret storage requires an os_keychain account reference")
    | some account => storeCredential m account secret

/-- What `upsert_profile` does when the configuration is not saved. -/
def rollBack (old : Option StoredProfile) (p : StoredProfile) : Task Unit :=
  match old.bind StoredProfile.osKeychain, p.osKeychain with
  | none, some account => discardCredential m account
  | _, _ => pure ()

/-- What `upsert_profile` does after the configuration is saved. -/
def cleanUp (old : Option StoredProfile) (p : StoredProfile) : Task Unit :=
  match old.bind StoredProfile.osKeychain with
  | some oldAccount =>
    if some oldAccount ≠ p.osKeychain then discardCredential m oldAccount else pure ()
  | none => pure ()

/-- `upsert_profile`. -/
def upsertProfile (name : String) (profile : StoredProfile) (secret : Option String) :
    Task Unit := do
  Act.lift (reject S.fixedConfig.isSome
    (.invalidProject "embedded provider profiles are immutable"))
  Act.lift (validateProfileName name)
  let profile := withAccount name profile secret
  Act.lift (liftProvider (profile.validate S.endpoints))
  let config ← loadConfig S m.firstLook
  let old := get? name config.profiles
  storeSecret m profile secret
  let config ← loadConfig S m.secondLook
  match ← Act.attempt (saveConfig S m (config.insert name profile)) with
  | .ok () => cleanUp m old profile
  | .error e => do
    rollBack m old profile
    Act.fail e

/-- `remove_profile`. -/
def removeProfile (name : String) : Task Unit := do
  Act.lift (reject S.fixedConfig.isSome
    (.invalidProject "embedded provider profiles are immutable"))
  let config ← loadConfig S m.firstLook
  match get? name config.profiles with
  | none => Act.fail (.invalidProject ("unknown provider profile \x60" ++ name ++ "\x60"))
  | some profile => do
    saveConfig S m (config.remove name)
    match profile.osKeychain with
    | none => pure ()
    | some account =>
      match ← Act.attempt (deleteCredential m account) with
      | .ok () => pure ()
      | .error .notFound => pure ()
      | .error e => Act.fail (.credential e.text)

/-! ## What a call does -/

/-- The desk with the secret stored. -/
def withSecret (p : StoredProfile) (secret : Option String) (s : Desk) : Desk :=
  match p.osKeychain, secret with
  | some account, some value =>
    { s with keychain := Function.update s.keychain account (some value) }
  | _, _ => s

/-- The desk without the secret of an account. -/
def withoutAccount (account : String) (s : Desk) : Desk :=
  if m.delete = none ∧ s.keychain account ≠ none then
    { s with
      keychain := Function.update s.keychain account none
      deleted := s.deleted ++ [account] }
  else s

theorem attempt_deleteCredential (account : String) (s : Desk) :
    ∃ r, (Act.attempt (deleteCredential m account) : Task (Except CredentialError Unit)) s =
      (.ok r, withoutAccount m account s) := by
  unfold Act.attempt deleteCredential withoutAccount
  cases m.delete with
  | some e => exact ⟨.error e, rfl⟩
  | none =>
    cases s.keychain account with
    | none => exact ⟨.error .notFound, rfl⟩
    | some secret => exact ⟨.ok (), rfl⟩

theorem discardCredential_eq (account : String) (s : Desk) :
    discardCredential m account s = (.ok (), withoutAccount m account s) := by
  obtain ⟨r, hattempt⟩ := attempt_deleteCredential m account s
  exact Act.bind_ok hattempt

/-- The desk after `rollBack`. -/
def rolledBack (old : Option StoredProfile) (p : StoredProfile) (s : Desk) : Desk :=
  match old.bind StoredProfile.osKeychain, p.osKeychain with
  | none, some account => withoutAccount m account s
  | _, _ => s

theorem rollBack_eq (old : Option StoredProfile) (p : StoredProfile) (s : Desk) :
    rollBack m old p s = (.ok (), rolledBack m old p s) := by
  unfold rollBack rolledBack
  cases old.bind StoredProfile.osKeychain with
  | some _ => rfl
  | none =>
    cases p.osKeychain with
    | none => rfl
    | some account => exact discardCredential_eq m account s

/-- The desk after `cleanUp`. -/
def cleanedUp (old : Option StoredProfile) (p : StoredProfile) (s : Desk) : Desk :=
  match old.bind StoredProfile.osKeychain with
  | some oldAccount => if some oldAccount ≠ p.osKeychain then withoutAccount m oldAccount s else s
  | none => s

theorem cleanUp_eq (old : Option StoredProfile) (p : StoredProfile) (s : Desk) :
    cleanUp m old p s = (.ok (), cleanedUp m old p s) := by
  unfold cleanUp cleanedUp
  cases old.bind StoredProfile.osKeychain with
  | none => rfl
  | some oldAccount =>
    by_cases hsame : some oldAccount ≠ p.osKeychain
    · simp only [if_pos hsame]
      exact discardCredential_eq m oldAccount s
    · simp only [if_neg hsame]
      rfl

/-- A save ends before the file is replaced, or after it. -/
theorem saveConfig_eq (hfixed : S.fixedConfig = none) (config : StoredConfig) (s : Desk) :
    saveConfig S m config s = match stagedText S m config with
      | .error e => (.error e, s)
      | .ok content => (m.check .protect, { s with file := some content }) := by
  unfold saveConfig
  rw [hfixed]
  show (Act.lift (stagedText S m config) >>= _) s = _
  cases stagedText S m config with
  | error e => rfl
  | ok content => rfl

/-- The part of `upsert_profile` that ends with the secret stored: the profile it replaces. -/
def beganUpsert (name : String) (profile : StoredProfile) (secret file : Option String) :
    Except AppError (Option StoredProfile) := do
  reject S.fixedConfig.isSome (.invalidProject "embedded provider profiles are immutable")
  validateProfileName name
  liftProvider ((withAccount name profile secret).validate S.endpoints)
  let config ← reading S m.firstLook file
  match secret, m.store with
  | some _, some e => .error (.credential e.text)
  | _, _ => .ok (get? name config.profiles)

/-- The rest of it. -/
def finished (name : String) (p : StoredProfile) (old : Option StoredProfile) (s : Desk) :
    Except AppError Unit × Desk :=
  match reading S m.secondLook s.file with
  | .error e => (.error e, s)
  | .ok config =>
    match stagedText S m (config.insert name p) with
    | .error e => (.error e, rolledBack m old p s)
    | .ok content =>
      match m.check .protect with
      | .error e => (.error e, rolledBack m old p { s with file := some content })
      | .ok () => (.ok (), cleanedUp m old p { s with file := some content })

theorem osKeychain_withAccount {name : String} {p : StoredProfile} {value : String} :
    ∃ account, (withAccount name p (some value)).osKeychain = some account := by
  unfold withAccount
  cases h : p.osKeychain with
  | none => exact ⟨name, by simp⟩
  | some account => exact ⟨account, by simp [h]⟩

theorem storeSecret_eq (name : String) (p : StoredProfile) (secret : Option String) (s : Desk) :
    storeSecret m (withAccount name p secret) secret s = match secret, m.store with
      | some _, some e => (.error (.credential e.text), s)
      | _, _ => (.ok (), withSecret (withAccount name p secret) secret s) := by
  cases secret with
  | none =>
    unfold withSecret
    cases (withAccount name p none).osKeychain <;> rfl
  | some value =>
    obtain ⟨account, haccount⟩ : ∃ account,
        (withAccount name p (some value)).osKeychain = some account := osKeychain_withAccount
    unfold storeSecret withSecret
    rw [haccount]
    unfold storeCredential
    cases m.store <;> rfl

theorem finished_eq (hfixed : S.fixedConfig = none) (name : String) (p : StoredProfile)
    (old : Option StoredProfile) (s : Desk) :
    (loadConfig S m.secondLook >>= fun config => do
      match ← Act.attempt (saveConfig S m (config.insert name p)) with
      | .ok () => cleanUp m old p
      | .error e => do
        rollBack m old p
        Act.fail e) s = finished S m name p old s := by
  unfold finished
  cases hread : reading S m.secondLook s.file with
  | error e =>
    have hload : loadConfig S m.secondLook s = (.error e, s) := Prod.ext hread rfl
    rw [Act.bind_error hload]
  | ok config =>
    have hload : loadConfig S m.secondLook s = (.ok config, s) := Prod.ext hread rfl
    rw [Act.bind_ok hload]
    dsimp only
    have hsave := saveConfig_eq S m hfixed (config.insert name p) s
    have hfail : ∀ (e : AppError) (u : Desk),
        (Act.attempt (saveConfig S m (config.insert name p)) : Task (Except AppError Unit)) s =
          (.ok (.error e), u) →
        (Act.attempt (saveConfig S m (config.insert name p)) >>= fun r => match r with
          | .ok () => cleanUp m old p
          | .error e => rollBack m old p >>= fun _ => Act.fail e) s =
            (.error e, rolledBack m old p u) := by
      intro e u hattempt
      rw [Act.bind_ok hattempt]
      exact Act.bind_ok (rollBack_eq m old p u)
    cases hstaged : stagedText S m (config.insert name p) with
    | error e =>
      rw [hstaged] at hsave
      exact hfail e s (by rw [Act.attempt, hsave])
    | ok content =>
      rw [hstaged] at hsave
      cases hprotect : m.check .protect with
      | error e =>
        rw [hprotect] at hsave
        exact hfail e _ (by rw [Act.attempt, hsave])
      | ok =>
        rw [hprotect] at hsave
        have hattempt :
            (Act.attempt (saveConfig S m (config.insert name p)) : Task (Except AppError Unit)) s =
              (.ok (.ok ()), { s with file := some content }) := by rw [Act.attempt, hsave]
        rw [Act.bind_ok hattempt]
        exact cleanUp_eq m old p _

/-- **What `upsert_profile` does.** -/
theorem upsertProfile_eq (name : String) (profile : StoredProfile) (secret : Option String)
    (s : Desk) :
    upsertProfile S m name profile secret s =
      match beganUpsert S m name profile secret s.file with
      | .error e => (.error e, s)
      | .ok old => finished S m name (withAccount name profile secret) old
          (withSecret (withAccount name profile secret) secret s) := by
  unfold upsertProfile beganUpsert
  cases hfixed : S.fixedConfig with
  | some config => rfl
  | none =>
    show (Act.lift (validateProfileName name) >>= _) s = _
    cases validateProfileName name with
    | error e => rfl
    | ok =>
      show (Act.lift (liftProvider ((withAccount name profile secret).validate S.endpoints)) >>=
        _) s = _
      cases liftProvider ((withAccount name profile secret).validate S.endpoints) with
      | error e => rfl
      | ok =>
        show (loadConfig S m.firstLook >>= _) s = _
        cases hread : reading S m.firstLook s.file with
        | error e =>
          have hload : loadConfig S m.firstLook s = (.error e, s) := Prod.ext hread rfl
          rw [Act.bind_error hload]
          rfl
        | ok config =>
          have hload : loadConfig S m.firstLook s = (.ok config, s) := Prod.ext hread rfl
          rw [Act.bind_ok hload]
          have hstore := storeSecret_eq m name profile secret s
          show (storeSecret m (withAccount name profile secret) secret >>= _) s =
            match (match secret, m.store with
              | some _, some e => Except.error (AppError.credential e.text)
              | _, _ => .ok (get? name config.profiles)) with
            | .error e => (.error e, s)
            | .ok old => finished S m name (withAccount name profile secret) old
                (withSecret (withAccount name profile secret) secret s)
          cases secret with
          | none =>
            rw [Act.bind_ok hstore]
            exact finished_eq S m hfixed name _ _ _
          | some value =>
            cases hfails : m.store with
            | some e =>
              rw [hfails] at hstore
              rw [Act.bind_error hstore]
            | none =>
              rw [hfails] at hstore
              rw [Act.bind_ok hstore]
              exact finished_eq S m hfixed name _ _ _

/-- The part of `remove_profile` before the save: the configuration and the profile. -/
def chosen (name : String) (file : Option String) :
    Except AppError (StoredConfig × StoredProfile) := do
  reject S.fixedConfig.isSome (.invalidProject "embedded provider profiles are immutable")
  let config ← reading S m.firstLook file
  match get? name config.profiles with
  | none => .error (.invalidProject ("unknown provider profile \x60" ++ name ++ "\x60"))
  | some profile => .ok (config, profile)

/-- **What `remove_profile` leaves.** -/
theorem removeProfile_eq (name : String) (s : Desk) :
    (removeProfile S m name s).2 = match chosen S m name s.file with
      | .error _ => s
      | .ok (config, profile) => match stagedText S m (config.remove name) with
        | .error _ => s
        | .ok content => match m.check .protect, profile.osKeychain with
          | .ok (), some account => withoutAccount m account { s with file := some content }
          | _, _ => { s with file := some content } := by
  unfold removeProfile chosen
  cases hfixed : S.fixedConfig with
  | some config => rfl
  | none =>
    show ((loadConfig S m.firstLook >>= _) s).2 = _
    cases hread : reading S m.firstLook s.file with
    | error e =>
      have hload : loadConfig S m.firstLook s = (.error e, s) := Prod.ext hread rfl
      rw [Act.bind_error hload]
      rfl
    | ok config =>
      have hload : loadConfig S m.firstLook s = (.ok config, s) := Prod.ext hread rfl
      rw [Act.bind_ok hload]
      show _ = match (match get? name config.profiles with
        | none => Except.error (AppError.invalidProject
            ("unknown provider profile \x60" ++ name ++ "\x60"))
        | some profile => .ok (config, profile)) with
        | .error _ => s
        | .ok (config, profile) => match stagedText S m (config.remove name) with
          | .error _ => s
          | .ok content => match m.check .protect, profile.osKeychain with
            | .ok (), some account => withoutAccount m account { s with file := some content }
            | _, _ => { s with file := some content }
      cases get? name config.profiles with
      | none => rfl
      | some profile =>
        have hsave := saveConfig_eq S m hfixed (config.remove name) s
        dsimp only
        cases hstaged : stagedText S m (config.remove name) with
        | error e =>
          rw [hstaged] at hsave
          rw [Act.bind_error hsave]
        | ok content =>
          rw [hstaged] at hsave
          cases hprotect : m.check .protect with
          | error e =>
            rw [hprotect] at hsave
            rw [Act.bind_error hsave]
          | ok =>
            rw [hprotect] at hsave
            rw [Act.bind_ok hsave]
            cases profile.osKeychain with
            | none => rfl
            | some account =>
              obtain ⟨r, hattempt⟩ :=
                attempt_deleteCredential m account { s with file := some content }
              dsimp only
              rw [Act.bind_ok hattempt]
              cases r with
              | ok => rfl
              | error e => cases e <;> rfl

/-! ## What the configuration refers to -/

/-- A profile has the account. -/
def StoredConfig.Names (config : StoredConfig) (account : String) : Prop :=
  ∃ e ∈ config.profiles, e.2.osKeychain = some account

/-- A profile of another name has the account. -/
def StoredConfig.NamesBeside (config : StoredConfig) (name account : String) : Prop :=
  ∃ e ∈ config.profiles, e.1 ≠ name ∧ e.2.osKeychain = some account

theorem names_insert {config : StoredConfig} {name account : String} {p : StoredProfile} :
    (config.insert name p).Names account ↔
      p.osKeychain = some account ∨ config.NamesBeside name account := by
  unfold StoredConfig.Names StoredConfig.NamesBeside StoredConfig.insert
  simp only [mem_insertKey_iff config.sorted, or_and_right, exists_or, exists_eq_left, and_assoc]

theorem names_remove {config : StoredConfig} {name account : String} :
    (config.remove name).Names account ↔ config.NamesBeside name account := by
  unfold StoredConfig.Names StoredConfig.NamesBeside StoredConfig.remove
  simp only [List.mem_filter, bne_iff_ne, and_assoc]

/-- The configuration on disk. -/
def onDisk (file : Option String) : Option StoredConfig := file.bind S.toml.parse

/-- A profile of the configuration on disk has the account. -/
def Refers (file : Option String) (account : String) : Prop :=
  ∃ config ∈ onDisk S file, config.Names account

theorem refers_iff {file : Option String} {config : StoredConfig}
    (h : onDisk S file = some config) {account : String} :
    Refers S file account ↔ config.Names account := by
  unfold Refers
  rw [h]
  simp

theorem refers_congr {file file' : Option String} (h : onDisk S file' = onDisk S file)
    {account : String} : Refers S file' account ↔ Refers S file account := by
  unfold Refers
  rw [h]

/-- What is staged is read again. -/
theorem onDisk_stagedText {config : StoredConfig} {content : String}
    (h : stagedText S m config = .ok content) : onDisk S (some content) = some config := by
  simp only [stagedText, bind_eq_ok, exists_unit, Except.ok.injEq] at h
  obtain ⟨-, text, htext, -, -, -, -, rfl⟩ := h
  refine S.toml.parse_print config text ?_
  have hprint := liftProvider_eq_ok.mp htext
  simp only [toToml, bind_eq_ok, exists_unit] at hprint
  cases hp : S.toml.print config with
  | none =>
    rw [hp] at hprint
    cases hprint.2
  | some found =>
    rw [hp] at hprint
    rw [Except.ok.inj hprint.2]

/-! ## The secret of the account -/

/-- No secret is given, or the one that the account has. -/
def KeepsSecret (s : Desk) (account : String) (secret : Option String) : Prop :=
  secret = none ∨ secret = s.keychain account

/-- A call that is rolled back deletes the secret of the account. -/
def RollsBack (old : Option StoredProfile) (s : Desk) (account : String)
    (secret : Option String) : Prop :=
  old.bind StoredProfile.osKeychain = none ∧ m.delete = none ∧
    (secret ≠ none ∨ s.keychain account ≠ none)

instance (old : Option StoredProfile) (s : Desk) (account : String) (secret : Option String) :
    Decidable (RollsBack m old s account secret) :=
  inferInstanceAs (Decidable (_ ∧ _ ∧ _))

theorem keychain_withSecret {p : StoredProfile} {account : String}
    (h : p.osKeychain = some account) (secret : Option String) (s : Desk) :
    (withSecret p secret s).keychain =
      Function.update s.keychain account (secret.or (s.keychain account)) := by
  unfold withSecret
  rw [h]
  cases secret with
  | some value => rfl
  | none => exact (Function.update_eq_self account s.keychain).symm

theorem file_withSecret (p : StoredProfile) (secret : Option String) (s : Desk) :
    (withSecret p secret s).file = s.file := by
  unfold withSecret
  split <;> rfl

theorem deleted_withSecret (p : StoredProfile) (secret : Option String) (s : Desk) :
    (withSecret p secret s).deleted = s.deleted := by
  unfold withSecret
  split <;> rfl

theorem keepsSecret_iff {s : Desk} {account : String} {secret : Option String} :
    KeepsSecret s account secret ↔ secret.or (s.keychain account) = s.keychain account := by
  unfold KeepsSecret
  cases secret with
  | none => simp
  | some value => simp

theorem rollsBack_iff {p : StoredProfile} {old : Option StoredProfile} {account : String}
    (h : p.osKeychain = some account) {secret : Option String} {s : Desk} :
    RollsBack m old s account secret ↔ old.bind StoredProfile.osKeychain = none ∧
      m.delete = none ∧ (withSecret p secret s).keychain account ≠ none := by
  unfold RollsBack
  rw [keychain_withSecret h, Function.update_self]
  cases secret with
  | none => simp
  | some value => simp

/-- What a call that is rolled back leaves. -/
theorem rolledBack_of {p : StoredProfile} {old : Option StoredProfile} {account : String}
    (h : p.osKeychain = some account) (secret file : Option String) {s : Desk}
    (hs : s.deleted = []) :
    rolledBack m old p { withSecret p secret s with file := file } =
      if RollsBack m old s account secret then
        ⟨file, Function.update (withSecret p secret s).keychain account none, [account]⟩
      else ⟨file, (withSecret p secret s).keychain, []⟩ := by
  unfold rolledBack
  rw [h]
  by_cases hback : RollsBack m old s account secret
  · obtain ⟨hold, hdelete, hentry⟩ := (rollsBack_iff m h).mp hback
    rw [if_pos hback, hold]
    dsimp only
    unfold withoutAccount
    rw [if_pos ⟨hdelete, hentry⟩, deleted_withSecret, hs]
    rfl
  · rw [if_neg hback]
    have hsame : ({ withSecret p secret s with file := file } : Desk) =
        ⟨file, (withSecret p secret s).keychain, []⟩ := by
      rw [← hs, ← deleted_withSecret p secret s]
    cases hold : old.bind StoredProfile.osKeychain with
    | some _ => exact hsame
    | none =>
      dsimp only
      unfold withoutAccount
      rw [if_neg, hsame]
      rintro ⟨hdelete, hentry⟩
      exact hback ((rollsBack_iff m h).mpr ⟨hold, hdelete, hentry⟩)

/-- A call that fails spares what the configuration refers to iff the account of the new profile is
not referred to, or its secret is neither replaced nor deleted. -/
theorem undone_iff {p : StoredProfile} {old : Option StoredProfile} {secret file : Option String}
    {s : Desk} (hs : s.deleted = []) (hdisk : onDisk S file = onDisk S s.file) :
    ((∀ account ∈ (rolledBack m old p { withSecret p secret s with file := file }).deleted,
        ¬ Refers S file account) ∧
      ∀ account, Refers S s.file account →
        (rolledBack m old p { withSecret p secret s with file := file }).keychain account =
          s.keychain account) ↔
    ∀ account, p.osKeychain = some account → Refers S s.file account →
      KeepsSecret s account secret ∧ ¬ RollsBack m old s account secret := by
  cases h : p.osKeychain with
  | none =>
    have hdesk : rolledBack m old p { withSecret p secret s with file := file } =
        ⟨file, s.keychain, []⟩ := by
      unfold rolledBack withSecret
      rw [h, ← hs]
      cases old.bind StoredProfile.osKeychain <;> rfl
    rw [hdesk]
    simp
  | some account =>
    have hdesk := @rolledBack_of m p old account h secret file s hs
    simp only [Option.some.injEq, forall_eq', keepsSecret_iff]
    by_cases hback : RollsBack m old s account secret
    · rw [hdesk, if_pos hback]
      simp only [List.mem_singleton, forall_eq, hback, not_true_eq_false, and_false, imp_false,
        refers_congr S hdisk]
      refine ⟨And.left, fun hfree => ⟨hfree, fun other hother => ?_⟩⟩
      have hne : other ≠ account := fun heq => hfree (heq ▸ hother)
      rw [Function.update_of_ne hne, keychain_withSecret h, Function.update_of_ne hne]
    · rw [hdesk, if_neg hback]
      simp only [hback, not_false_iff, and_true, keychain_withSecret h]
      constructor
      · rintro ⟨-, hkept⟩ hrefers
        have hentry := hkept account hrefers
        rwa [Function.update_self] at hentry
      · refine fun hkept => ⟨fun _ hmem => absurd hmem List.not_mem_nil, fun other hother => ?_⟩
        by_cases heq : other = account
        · subst heq
          rw [Function.update_self, hkept hother]
        · rw [Function.update_of_ne heq]

@[simp] theorem file_withoutAccount (account : String) (s : Desk) :
    (withoutAccount m account s).file = s.file := by
  unfold withoutAccount
  split <;> rfl

@[simp] theorem file_rolledBack (old : Option StoredProfile) (p : StoredProfile) (s : Desk) :
    (rolledBack m old p s).file = s.file := by
  unfold rolledBack
  split
  · exact file_withoutAccount m _ s
  · rfl

@[simp] theorem file_cleanedUp (old : Option StoredProfile) (p : StoredProfile) (s : Desk) :
    (cleanedUp m old p s).file = s.file := by
  unfold cleanedUp
  split
  · split
    · exact file_withoutAccount m _ s
    · rfl
  · rfl

theorem keychain_withSecret_of_ne {p : StoredProfile} {account : String}
    (h : p.osKeychain ≠ some account) (secret : Option String) (s : Desk) :
    (withSecret p secret s).keychain account = s.keychain account := by
  cases hp : p.osKeychain with
  | none =>
    unfold withSecret
    rw [hp]
  | some other =>
    have hne : account ≠ other := fun heq => h (heq ▸ hp)
    rw [keychain_withSecret hp, Function.update_of_ne hne]

/-- Deleting an account spares what is referred to iff no profile has it, or nothing is deleted. -/
theorem withoutAccount_iff {account : String} {s : Desk} (hs : s.deleted = []) {P : String → Prop} :
    (∀ other ∈ (withoutAccount m account s).deleted, ¬ P other) ↔
      (P account → m.delete ≠ none ∨ s.keychain account = none) := by
  unfold withoutAccount
  by_cases hdelete : m.delete = none ∧ s.keychain account ≠ none
  · rw [if_pos hdelete, hs]
    have hnot : ¬ (m.delete ≠ none ∨ s.keychain account = none) := by
      rw [not_or, not_not]
      exact hdelete
    simp [hnot]
  · rw [if_neg hdelete, hs]
    have hnone : m.delete ≠ none ∨ s.keychain account = none := by
      rwa [not_and_or, not_not] at hdelete
    exact iff_of_true nofun fun _ => hnone

/-- A call that succeeds spares what the configuration refers to iff the account that the profile
had is no other's. -/
theorem cleanedUp_iff {p : StoredProfile} {old : Option StoredProfile} {secret : Option String}
    {content name : String} {config : StoredConfig} {s : Desk} (hs : s.deleted = [])
    (hdisk : onDisk S (some content) = some (config.insert name p)) :
    (∀ account ∈ (cleanedUp m old p { withSecret p secret s with file := some content }).deleted,
        ¬ Refers S (some content) account) ↔
      ∀ account, old.bind StoredProfile.osKeychain = some account →
        p.osKeychain ≠ some account → config.NamesBeside name account →
          m.delete ≠ none ∨ s.keychain account = none := by
  have hnone : ({ withSecret p secret s with file := some content } : Desk).deleted = [] := by
    rw [deleted_withSecret, hs]
  simp only [refers_iff S hdisk, names_insert]
  unfold cleanedUp
  cases hold : old.bind StoredProfile.osKeychain with
  | none =>
    dsimp only
    rw [deleted_withSecret, hs]
    exact iff_of_true nofun nofun
  | some oldAccount =>
    dsimp only
    by_cases hsame : some oldAccount = p.osKeychain
    · rw [if_neg (not_not.mpr hsame), deleted_withSecret, hs]
      refine iff_of_true nofun fun account heq hne => ?_
      exact absurd (hsame.symm.trans heq) hne
    · rw [if_pos hsame, withoutAccount_iff m hnone]
      have hne : p.osKeychain ≠ some oldAccount := Ne.symm hsame
      show (_ → m.delete ≠ none ∨ (withSecret p secret s).keychain oldAccount = none) ↔ _
      rw [keychain_withSecret_of_ne hne]
      simp [hne]

/-- A secret that is stored spares what the configuration refers to iff it is the one it has. -/
theorem withSecret_iff {p : StoredProfile} {secret : Option String} {s : Desk} :
    (∀ account, Refers S s.file account →
        (withSecret p secret s).keychain account = s.keychain account) ↔
      ∀ account, p.osKeychain = some account → Refers S s.file account →
        KeepsSecret s account secret := by
  constructor
  · intro hkept account haccount hrefers
    have hentry := hkept account hrefers
    rw [keychain_withSecret haccount, Function.update_self] at hentry
    exact keepsSecret_iff.mpr hentry
  · intro hkept account hrefers
    by_cases haccount : p.osKeychain = some account
    · rw [keychain_withSecret haccount, Function.update_self]
      exact keepsSecret_iff.mp (hkept account haccount hrefers)
    · exact keychain_withSecret_of_ne haccount secret s

end

/-! ## Calls -/

inductive Edit
  | upsert (name : String) (profile : StoredProfile) (secret : Option String)
  | remove (name : String)

/-- A call and what it meets. -/
structure Call where
  edit : Edit
  mishaps : Mishaps

section

variable (S : ProviderService)

def perform (c : Call) (s : Desk) : Except AppError Unit × Desk :=
  match c.edit with
  | .upsert name profile secret =>
    upsertProfile S c.mishaps name profile secret { s with deleted := [] }
  | .remove name => removeProfile S c.mishaps name { s with deleted := [] }

/-- The calls of a run, each with the desk it is made at. -/
def callsFrom : Desk → List Call → List (Desk × Call)
  | _, [] => []
  | s, c :: rest => (s, c) :: callsFrom (perform S c s).2 rest

/-- A call at `s` that ends with `r` spares what the configuration refers to. -/
structure Spares (s : Desk) (edit : Edit) (r : Except AppError Unit × Desk) : Prop where
  /-- No account is deleted that the configuration on disk refers to afterwards. -/
  kept : ∀ account ∈ r.2.deleted, ¬ Refers S r.2.file account
  /-- When `upsert_profile` fails, all is as it was. -/
  restored : ∀ name profile secret e, edit = .upsert name profile secret → r.1 = .error e →
    onDisk S r.2.file = onDisk S s.file ∧
      ∀ account, Refers S s.file account → r.2.keychain account = s.keychain account

/-- When a call of `upsert_profile` spares what the configuration refers to, by the step that ends
it. -/
def UpsertAllowed (m : Mishaps) (name : String) (profile : StoredProfile)
    (secret : Option String) (s : Desk) : Prop :=
  let p := withAccount name profile secret
  ∀ old, beganUpsert S m name profile secret s.file = .ok old →
    match reading S m.secondLook s.file with
    | .error _ => ∀ account, p.osKeychain = some account → Refers S s.file account →
        KeepsSecret s account secret
    | .ok config =>
      match stagedText S m (config.insert name p) with
      | .error _ => ∀ account, p.osKeychain = some account → Refers S s.file account →
          KeepsSecret s account secret ∧ ¬ RollsBack m old s account secret
      | .ok _ =>
        match m.check .protect with
        | .error _ => onDisk S s.file = some (config.insert name p) ∧
            ∀ account, p.osKeychain = some account → Refers S s.file account →
              KeepsSecret s account secret ∧ ¬ RollsBack m old s account secret
        | .ok () => ∀ account, old.bind StoredProfile.osKeychain = some account →
            p.osKeychain ≠ some account → config.NamesBeside name account →
              m.delete ≠ none ∨ s.keychain account = none

/-- When a call of `remove_profile` does: no other profile has the account, or the call ends before
it is deleted. -/
def RemoveAllowed (m : Mishaps) (name : String) (s : Desk) : Prop :=
  ∀ config profile content, chosen S m name s.file = .ok (config, profile) →
    stagedText S m (config.remove name) = .ok content → m.check .protect = .ok () →
      ∀ account, profile.osKeychain = some account → config.NamesBeside name account →
        m.delete ≠ none ∨ s.keychain account = none

def Allowed (s : Desk) (c : Call) : Prop :=
  match c.edit with
  | .upsert name profile secret => UpsertAllowed S c.mishaps name profile secret s
  | .remove name => RemoveAllowed S c.mishaps name s

variable {S} {m : Mishaps} {name : String} {profile : StoredProfile} {secret : Option String}
  {s : Desk}

theorem spares_of_ok {edit : Edit} {t : Desk} :
    Spares S s edit (.ok (), t) ↔ ∀ account ∈ t.deleted, ¬ Refers S t.file account :=
  ⟨fun h => h.kept, fun h => ⟨h, fun _ _ _ _ _ hr => by cases hr⟩⟩

theorem spares_of_error {e : AppError} {t : Desk} :
    Spares S s (.upsert name profile secret) (.error e, t) ↔
      (∀ account ∈ t.deleted, ¬ Refers S t.file account) ∧
        onDisk S t.file = onDisk S s.file ∧
          ∀ account, Refers S s.file account → t.keychain account = s.keychain account :=
  ⟨fun h => ⟨h.kept, h.restored _ _ _ _ rfl rfl⟩, fun h => ⟨h.1, fun _ _ _ _ _ _ => h.2⟩⟩

theorem spares_of_remove {r : Except AppError Unit × Desk} :
    Spares S s (.remove name) r ↔ ∀ account ∈ r.2.deleted, ¬ Refers S r.2.file account :=
  ⟨fun h => h.kept, fun h => ⟨h, fun _ _ _ _ hedit => by cases hedit⟩⟩

/-- **When `upsert_profile` spares what the configuration refers to.** -/
theorem upsertProfile_spares_iff (hs : s.deleted = []) :
    Spares S s (.upsert name profile secret) (upsertProfile S m name profile secret s) ↔
      UpsertAllowed S m name profile secret s := by
  rw [upsertProfile_eq]
  unfold UpsertAllowed
  cases beganUpsert S m name profile secret s.file with
  | error e =>
    refine iff_of_true (spares_of_error.mpr ⟨?_, rfl, fun _ _ => rfl⟩) fun old hold => by cases hold
    rw [hs]
    exact nofun
  | ok old =>
    dsimp only
    simp only [Except.ok.injEq, forall_eq']
    unfold finished
    rw [file_withSecret]
    cases reading S m.secondLook s.file with
    | error e =>
      dsimp only
      rw [spares_of_error, deleted_withSecret, hs, file_withSecret, withSecret_iff]
      simp
    | ok config =>
      dsimp only
      cases hstaged : stagedText S m (config.insert name (withAccount name profile secret)) with
      | error e =>
        have hfile : withSecret (withAccount name profile secret) secret s =
            { withSecret (withAccount name profile secret) secret s with file := s.file } := by
          rw [← file_withSecret (withAccount name profile secret) secret s]
        dsimp only
        rw [spares_of_error, hfile, file_rolledBack]
        exact (and_congr_right fun _ => and_iff_right rfl).trans (undone_iff S m hs rfl)
      | ok content =>
        have hdisk := onDisk_stagedText S m hstaged
        cases m.check .protect with
        | error e =>
          dsimp only
          rw [spares_of_error, file_rolledBack, hdisk, @eq_comm _ (some _), and_left_comm]
          refine and_congr_right fun hsame => undone_iff S m hs ?_
          rw [hdisk, hsame]
        | ok =>
          dsimp only
          rw [spares_of_ok, file_cleanedUp]
          exact cleanedUp_iff S m hs hdisk

/-- **When `remove_profile` spares what the configuration refers to.** -/
theorem removeProfile_spares_iff (hs : s.deleted = []) :
    Spares S s (.remove name) (removeProfile S m name s) ↔ RemoveAllowed S m name s := by
  have hnone : ∀ file account, account ∈ s.deleted → ¬ Refers S file account := by
    rw [hs]
    exact nofun
  rw [spares_of_remove, removeProfile_eq]
  unfold RemoveAllowed
  cases chosen S m name s.file with
  | error e => exact iff_of_true (hnone s.file) fun _ _ _ hchosen => by cases hchosen
  | ok found =>
    obtain ⟨config, profile⟩ := found
    dsimp only
    simp only [Except.ok.injEq, Prod.mk.injEq, and_imp]
    cases hstaged : stagedText S m (config.remove name) with
    | error e =>
      refine iff_of_true (hnone s.file) ?_
      rintro _ _ content rfl rfl hcontent
      rw [hstaged] at hcontent
      cases hcontent
    | ok content =>
      have hdisk := onDisk_stagedText S m hstaged
      cases hprotect : m.check .protect with
      | error e => exact iff_of_true (hnone _) fun _ _ _ _ _ _ hok => by cases hok
      | ok =>
        dsimp only
        cases haccount : profile.osKeychain with
        | none =>
          refine iff_of_true (hnone _) ?_
          rintro _ _ _ rfl rfl - - account hsome
          rw [haccount] at hsome
          cases hsome
        | some account =>
          simp only [file_withoutAccount, refers_iff S hdisk, names_remove]
          rw [withoutAccount_iff m (show ({ s with file := some content } : Desk).deleted = [] from
            hs)]
          constructor
          · rintro hallowed _ _ _ rfl rfl - - other hother
            rw [haccount] at hother
            obtain rfl := Option.some.inj hother
            exact hallowed
          · intro hallowed
            exact hallowed config profile content rfl rfl hstaged trivial account haccount

theorem spares_reset {edit : Edit} {r : Except AppError Unit × Desk} :
    Spares S { s with deleted := [] } edit r ↔ Spares S s edit r :=
  ⟨fun h => ⟨h.kept, h.restored⟩, fun h => ⟨h.kept, h.restored⟩⟩

/-- **A call spares what the configuration refers to iff it is allowed.** -/
theorem perform_spares_iff (c : Call) :
    Spares S s c.edit (perform S c s) ↔ Allowed S s c := by
  obtain ⟨edit, m⟩ := c
  rw [← spares_reset]
  cases edit with
  | upsert name profile secret => exact upsertProfile_spares_iff rfl
  | remove name => exact removeProfile_spares_iff rfl

/-- **The calls of a run spare the credentials that the configuration refers to iff each of them is
allowed where it is made.** -/
theorem calls_spared_iff (S : ProviderService) (s : Desk) (calls : List Call) :
    (∀ p ∈ callsFrom S s calls, Spares S p.1 p.2.edit (perform S p.2 p.1)) ↔
      ∀ p ∈ callsFrom S s calls, Allowed S p.1 p.2 :=
  forall₂_congr fun p _ => perform_spares_iff p.2

end

/-! ## Two profiles with one account -/

def accountProfile : StoredProfile where
  kind := .openAi
  endpoint := "https://api.openai.com/v1"
  model := "explicit-model"
  maxResponseBytes := 1024
  maxInputBytes := 1024
  maxBatchItems := 8
  options := .object []
  apiKeyEnv := none
  osKeychain := some "shared"
  timeoutMs := 100

def sharedConfig : StoredConfig :=
  ⟨aiSchemaVersion, [("a", accountProfile), ("b", accountProfile)], by unfold Sorted; decide⟩

def accountText (name : String) : String :=
  "[profiles." ++ name ++ "]\nkind = \"open_ai\"\nendpoint = \"https://api.openai.com/v1\"\n" ++
    "model = \"explicit-model\"\nos_keychain = \"shared\"\ntimeout_ms = 100\n" ++
    "max_response_bytes = 1024\nmax_input_bytes = 1024\nmax_batch_items = 8\n\n" ++
    "[profiles." ++ name ++ ".options]\n"

@[irreducible] def sharedText : String :=
  "schema_version = 3\n\n" ++ accountText "a" ++ "\n" ++ accountText "b"

@[irreducible] def restText : String := "schema_version = 3\n\n" ++ accountText "b"

/-- TOML, for the two configurations. -/
def sharedToml : Toml where
  print config := if config = sharedConfig then some sharedText
    else if config = sharedConfig.remove "a" then some restText
    else none
  parse text := if text = sharedText then some sharedConfig
    else if text = restText then some (sharedConfig.remove "a")
    else none
  parse_print config text h := by
    have hne : restText ≠ sharedText := by decide +kernel
    split_ifs at h with hshared hrest
    · rw [← Option.some.inj h, if_pos rfl, hshared]
    · rw [← Option.some.inj h, if_neg hne, if_pos rfl, hrest]

def sharedService : ProviderService where
  toml := sharedToml
  endpoints := {
    parseUri := fun text => if text = "https://api.openai.com/v1" then
      some (some "https", some "api.openai.com") else none
    isLoopbackAddress := fun _ => false }
  fixedConfig := none

/-- Nothing fails. -/
def noMishaps : Mishaps := ⟨⟨false, none⟩, ⟨false, none⟩, none, fun _ => none, none⟩

def sharedDesk : Desk where
  file := some sharedText
  keychain account := if account = "shared" then some "sk-first" else none
  deleted := []

theorem chosen_shared :
    chosen sharedService noMishaps "a" (some sharedText) = .ok (sharedConfig, accountProfile) := by
  have hparse : sharedService.toml.parse sharedText = some sharedConfig :=
    if_pos (Eq.refl sharedText)
  have hvalid : accountProfile.validate sharedService.endpoints = .ok () := by decide +kernel
  have hnames : ∀ e ∈ sharedConfig.profiles,
      BoundedName 128 ['-', '_'] e.1 ∧ e.2 = accountProfile := by
    simp only [sharedConfig, List.mem_cons, List.not_mem_nil, or_false, forall_eq_or_imp, forall_eq]
    decide +kernel
  have htoml : fromToml sharedService sharedText = .ok sharedConfig := by
    unfold fromToml
    rw [hparse]
    refine bind_unit_eq_ok.mpr ⟨rfl, bind_unit_eq_ok.mpr ⟨forM_eq_ok.mpr fun e he => ?_, rfl⟩⟩
    obtain ⟨hname, hprofile⟩ := hnames e he
    refine bind_unit_eq_ok.mpr ⟨reject_eq_ok.mpr (not_not.mpr hname), ?_⟩
    rw [hprofile]
    exact hvalid
  have hread : reading sharedService noMishaps.firstLook (some sharedText) = .ok sharedConfig := by
    show liftProvider (fromToml sharedService sharedText) = _
    rw [htoml]
    rfl
  show (reading sharedService noMishaps.firstLook (some sharedText) >>= _) = _
  rw [hread]
  rfl

theorem stagedText_rest :
    stagedText sharedService noMishaps (sharedConfig.remove "a") = .ok restText := by
  have hne : sharedConfig.remove "a" ≠ sharedConfig := by
    intro heq
    have hlength := congrArg (fun config => config.profiles.length) heq
    exact absurd hlength (by decide +kernel)
  have hprint : sharedService.toml.print (sharedConfig.remove "a") = some restText := by
    show (if sharedConfig.remove "a" = sharedConfig then some sharedText
      else if sharedConfig.remove "a" = sharedConfig.remove "a" then some restText
      else none) = some restText
    rw [if_neg hne, if_pos rfl]
  have htoml : toToml sharedService (sharedConfig.remove "a") = .ok restText := by
    unfold toToml
    rw [hprint]
    rfl
  show (liftProvider (toToml sharedService (sharedConfig.remove "a")) >>= _) = _
  rw [htoml]
  rfl

/-- Removing one of two profiles with one account deletes the secret of the other. -/
theorem sharedAccount_deleted :
    ∃ p ∈ callsFrom sharedService sharedDesk [⟨.remove "a", noMishaps⟩],
      (perform sharedService p.2 p.1).2.deleted = ["shared"] ∧
      Refers sharedService (perform sharedService p.2 p.1).2.file "shared" ∧
      ¬ Spares sharedService p.1 p.2.edit (perform sharedService p.2 p.1) := by
  have hafter : (perform sharedService ⟨.remove "a", noMishaps⟩ sharedDesk).2 =
      withoutAccount noMishaps "shared" { sharedDesk with file := some restText } := by
    have hfile : sharedDesk.file = some sharedText := rfl
    unfold perform
    dsimp only
    rw [removeProfile_eq, hfile, chosen_shared]
    dsimp only
    rw [stagedText_rest]
    rfl
  have hrefers : Refers sharedService
      (perform sharedService ⟨.remove "a", noMishaps⟩ sharedDesk).2.file "shared" := by
    rw [hafter, file_withoutAccount]
    exact (refers_iff sharedService (onDisk_stagedText _ _ stagedText_rest)).mpr
      ⟨("b", accountProfile), by decide +kernel, rfl⟩
  have hdeleted : (perform sharedService ⟨.remove "a", noMishaps⟩ sharedDesk).2.deleted =
      ["shared"] := by
    rw [hafter]
    rfl
  refine ⟨_, List.mem_cons_self, hdeleted, hrefers, fun hspares => ?_⟩
  refine hspares.kept "shared" ?_ hrefers
  rw [hdeleted]
  exact List.mem_cons_self

end Okc.App
