import Okc.Core.OutputNames

/-!
# Source paths are closed under normalisation (`snapshot.rs:1043-1233`)

`validate_source_path_pair` accepts the spelling of a source together with its NFC spelling. The
second is checked again later as a path of its own, by validators that share the decoder and compare
other fields.

* `portableWithin_logical`: the NFC spelling of a portable path is portable.
* `validate_pair_fixed_point`: it is accepted wherever the pair was, and neither spelling has a
  component that is not a proper name.
-/

namespace Okc.Core

open Okc.Lib

/-- A component that names something on every platform. -/
structure ProperComponent (component : String) : Prop where
  nonempty : component ≠ ""
  dot : component ≠ "."
  dotDot : component ≠ ".."
  reserved : stem component ∉ reservedStems

theorem ComponentOk.proper {limits : PathLimits} {component : String}
    (h : ComponentOk limits component) : ProperComponent component :=
  ⟨h.name.1, h.name.2.1, h.name.2.2, h.stem⟩

variable {X : Externals} {limits : PathLimits}

theorem PortableWithin.componentOk {path : String} (h : PortableWithin X limits path) :
    ∀ c ∈ splitSlash path, ComponentOk limits c ∧ ComponentOk limits (X.nfc c) := fun c hc =>
  ⟨validateComponent_eq_ok.mp (h.component c hc).1, validateComponent_eq_ok.mp (h.component c hc).2⟩

/-- The components of the NFC spelling are those of the path, each normalised. -/
theorem splitSlash_logical {path : String} (h : PortableWithin X limits path) :
    splitSlash (joinSlash ((splitSlash path).map X.nfc)) = (splitSlash path).map X.nfc := by
  refine splitSlash_joinSlash (by simpa using splitSlash_ne_nil path) fun c hc => ?_
  obtain ⟨d, hd, rfl⟩ := List.mem_map.mp hc
  exact (h.componentOk d hd).2.slash

theorem map_nfc_map_nfc (hnfc : ∀ s, X.nfc (X.nfc s) = X.nfc s) (parts : List String) :
    (parts.map X.nfc).map X.nfc = parts.map X.nfc := by
  rw [List.map_map]
  exact List.map_congr_left fun c _ => hnfc c

/-- **The NFC spelling of a portable path is portable.** -/
theorem portableWithin_logical (hnfc : ∀ s, X.nfc (X.nfc s) = X.nfc s) {path : String}
    (h : PortableWithin X limits path) :
    PortableWithin X limits (joinSlash ((splitSlash path).map X.nfc)) := by
  have hsplit := splitSlash_logical h
  refine ⟨fun c hc => ?_, h.logicalLength, ?_⟩
  · rw [hsplit] at hc
    obtain ⟨d, hd, rfl⟩ := List.mem_map.mp hc
    rw [hnfc]
    exact ⟨(h.component d hd).2, (h.component d hd).2⟩
  · rw [hsplit, map_nfc_map_nfc hnfc]
    exact h.logicalLength

theorem validatePortableRelativePath_eq_ok {path : String} :
    validatePortableRelativePath X limits path = .ok () ↔ PortableWithin X limits path := by
  unfold validatePortableRelativePath
  simp only [bind_eq_ok, reject_eq_ok, ne_eq, not_not, decodeArchivePath_eq_self]
  constructor
  · rintro ⟨path, h, -⟩
    exact h
  · intro h
    exact ⟨_, h, rfl⟩

/-- **The NFC spelling of an accepted source path is accepted by every validator as it is**, the
spelling of the source is portable, and a path that any of them accepts has proper components only,
in its own spelling and in NFC. -/
theorem validate_pair_fixed_point (X : Externals) (hnfc : ∀ s, X.nfc (X.nfc s) = X.nfc s)
    (policy : CompilerPolicy) {original logical : String}
    (h : validateSourcePathPair X policy.pathLimits original logical = .ok ()) :
    validateOutputLogicalPath X policy.pathLimits logical = .ok () ∧
      validateSourcePathPair X policy.pathLimits logical logical = .ok () ∧
      validatePortableRelativePath X policy.pathLimits original = .ok () ∧
      (∀ c ∈ splitSlash original, ProperComponent c) ∧
      (∀ c ∈ splitSlash logical, ProperComponent c) ∧
      ∀ path, validatePortableRelativePath X policy.pathLimits path = .ok () ∨
          validateOutputLogicalPath X policy.pathLimits path = .ok () →
        (∀ c ∈ splitSlash path, ProperComponent c) ∧
        ∀ c ∈ splitSlash (joinSlash ((splitSlash path).map X.nfc)), ProperComponent c := by
  obtain ⟨horiginal, rfl⟩ := validateSourcePathPair_eq_ok.mp h
  have hlogical := portableWithin_logical hnfc horiginal
  have hfixed : joinSlash ((splitSlash (joinSlash ((splitSlash original).map X.nfc))).map X.nfc) =
      joinSlash ((splitSlash original).map X.nfc) := by
    rw [splitSlash_logical horiginal, map_nfc_map_nfc hnfc]
  have hproper : ∀ path, PortableWithin X policy.pathLimits path →
      ∀ c ∈ splitSlash path, ProperComponent c := fun path hpath c hc =>
    (hpath.componentOk c hc).1.proper
  refine ⟨validateOutputLogicalPath_eq_ok.mpr ⟨hlogical, hfixed⟩,
    validateSourcePathPair_eq_ok.mpr ⟨hlogical, hfixed.symm⟩,
    validatePortableRelativePath_eq_ok.mpr horiginal, hproper _ horiginal, hproper _ hlogical,
    fun path hpath => ?_⟩
  have hportable : PortableWithin X policy.pathLimits path := by
    rcases hpath with hpath | hpath
    · exact validatePortableRelativePath_eq_ok.mp hpath
    · exact (validateOutputLogicalPath_eq_ok.mp hpath).1
  exact ⟨hproper _ hportable, hproper _ (portableWithin_logical hnfc hportable)⟩

/-- The theorem at work on an ASCII path, which is its own NFC spelling. -/
theorem validate_pair_fixed_point_note :
    validateOutputLogicalPath (plainExternals prefixHash) CompilerPolicy.default.pathLimits
        "notes/2024/plan.md" = .ok () ∧
      ∀ c ∈ splitSlash "notes/2024/plan.md", ProperComponent c := by
  have haccepted : validateSourcePathPair (plainExternals prefixHash)
      CompilerPolicy.default.pathLimits "notes/2024/plan.md" "notes/2024/plan.md" = .ok () := by
    decide +kernel
  have h := validate_pair_fixed_point (plainExternals prefixHash) (fun _ => rfl) .default haccepted
  exact ⟨h.1, h.2.2.2.1⟩

end Okc.Core
