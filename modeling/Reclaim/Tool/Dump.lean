import Reclaim.Audit.Extract
import Reclaim.Cruft.Extract
import Reclaim.Dump.Decoder
import Reclaim.Object.Extract
import Reclaim.Placement.Extract
import Reclaim.Text.Blank
import Reclaim.Tool.Basic
import Reclaim.Upload.Extract

/-!
# Tools for dumps and listings

These tools decode table dumps and storage listings and write the rows that the
engines want.  Their output has to be sorted before an engine reads it.
-/

namespace Reclaim
namespace Tool

/-- Decodes a dump and writes what is extracted from its rows. -/
def extraction {ρ : Type} (extract : Dump.Row → Except Defect (List ρ))
    (write : ρ → String) : Stream.Engine Dump.Decoder Line String where
  offer d line :=
    match d.decodeLine line.text with
    | (d, .error fault) => (d, .error fault)
    | (d, .ok none) => (d, .ok [])
    | (d, .ok (some row)) =>
        match extract row with
        | .error e => (d, .error (.malformed line.number e))
        | .ok rows => (d, .ok (rows.map write))
  finish d := (d, [])

/-- The tool that writes what is extracted from the rows of a dump. -/
def ofExtraction {ρ : Type} (name : String)
    (extract : Dump.Row → Except Defect (List ρ)) (write : ρ → String) : Tool :=
  ⟨name, Dump.Decoder, {}, extraction extract write⟩

/-- Writes the row of each entry of a listing; blank lines are passed over. -/
def listingRows {ρ : Type} (storageId : String) (ofListing : Listing → ρ)
    (write : ρ → String) : Stream.Engine Unit Line String where
  offer _ line :=
    if (Text.trim line.text).isEmpty then ((), .ok [])
    else
      match Listing.parse storageId line.text with
      | .error e => ((), .error (.malformed line.number e))
      | .ok l => ((), .ok [write (ofListing l)])
  finish _ := ((), [])

/-- The tool that writes the rows of a listing. -/
def ofListings {ρ : Type} (name storageId : String) (ofListing : Listing → ρ)
    (write : ρ → String) : Tool :=
  ⟨name, Unit, (), listingRows storageId ofListing write⟩

/-- Writes the rows of a dump as they are. -/
def decode : Tool :=
  ofExtraction "decode" (fun row => .ok [row])
    fun row => (Json.Value.object row).text

/-- Writes the histories of objects. -/
def extractObjects (origin : Dump.Origin) : Tool :=
  ofExtraction "transform-gc" (Object.Row.ofDump origin) Object.Row.line

/-- Writes the records of uploads. -/
def extractUploads (origin : Dump.Origin) : Tool :=
  ofExtraction "transform-mpu" (Upload.Record.ofDump origin) Upload.Record.line

/-- Writes references to objects. -/
def extractReferences : Tool :=
  ofExtraction "transform-cruft" Cruft.Row.ofDump Cruft.Row.line

/-- Writes the stored files of a listing for the search for cruft. -/
def listCruft (storageId : String) : Tool :=
  ofListings "transform-cruft" storageId Cruft.Row.ofListing Cruft.Row.line

/-- Writes expected replicas. -/
def extractReplicas : Tool :=
  ofExtraction "transform-audit" Audit.Row.ofDump Audit.Row.line

/-- Writes the stored replicas of a listing for the audit. -/
def listReplicas (storageId : String) : Tool :=
  ofListings "transform-audit" storageId Audit.Row.ofListing Audit.Row.line

/-- Writes objects to be placed. -/
def extractPlacements (origin : Dump.Origin) : Tool :=
  ofExtraction "transform-rebalance" (Placement.Row.ofDump origin)
    Placement.Row.line

end Tool
end Reclaim
