import SliceSync.Context.Summary
import SliceSync.Driver
import SliceSync.Storage
/-!
# Reports

What a replay tells of a scenario: for each slice how its driver ended, what was integrated and what its
context holds in the end. A report is printed as JSON with its fields in a fixed order.
-/

namespace SliceSync

/-- What a replay tells of one slice. -/
structure SliceReport where
  slice : Slice
  /-- How the driver ended, unless the exit was claimed before. -/
  exit : Option DriverExit
  evaluationIntegrated : Bool
  buildIntegrated : Bool
  /-- How many updates were told to be processed. -/
  processed : Nat
  context : Option ContextSummary
  deriving DecidableEq

/-- What a replay tells. -/
structure Report where
  project : String
  active : Option Slice
  slices : List SliceReport
  deriving DecidableEq

/-- A value that may be missing. -/
def Json.ofOption {α : Type} (write : α → Json) : Option α → Json
  | some a => write a
  | none => .null

def ContextSummary.toJson (s : ContextSummary) : Json :=
  .record
    [("id", .string s.id.text),
      ("language", .string s.language),
      ("display_name", .string s.content.displayName),
      ("assembly_name", .string s.assemblyName),
      ("output_path", .string s.content.outputPath),
      ("source_files", .strings s.content.sourceFiles.names),
      ("metadata_references", .strings s.content.metadataReferences.names),
      ("analyzer_references", .strings s.content.analyzerReferences.names),
      ("additional_files", .strings s.content.additionalFiles.names),
      ("options", .strings s.content.options),
      ("last_build_succeeded", .ofOption .bool s.content.lastBuildSucceeded),
      ("batches", .nat s.batches),
      ("disposed", .bool s.disposed)]

namespace SliceReport

def describeExit (r : SliceReport) : String :=
  match r.exit with
  | some exit => exit.describe
  | none => "detached"

def toJson (r : SliceReport) : Json :=
  .record
    [("slice", .string r.slice.display),
      ("exit", .string r.describeExit),
      ("evaluation_integrated", .bool r.evaluationIntegrated),
      ("build_integrated", .bool r.buildIntegrated),
      ("processed_updates", .nat r.processed),
      ("context", .ofOption ContextSummary.toJson r.context)]

end SliceReport

def Report.toJson (r : Report) : Json :=
  .record
    [("project", .string r.project),
      ("active", .ofOption (fun s => .string s.display) r.active),
      ("slices", .array (r.slices.map SliceReport.toJson))]

end SliceSync
