import StubListing.Stub.Outcome
import StubListing.Instant
/-!
# Manifests

A manifest records what a run wrote: every stub with its digest, and every class that has none.
The next run goes by it when it clears away what is no longer needed.
-/
namespace StubListing

/-- The record of one stub; the path starts at the output root. -/
structure ManifestEntry where
  ns : String
  className : String
  path : Path
  digest : String
  members : Stub.MemberCounts
  deriving DecidableEq, Repr, Inhabited

/-- The record of a run. -/
structure Manifest where
  time : Instant
  module : String
  namespaces : List String
  entries : List ManifestEntry
  failures : List Stub.Failed
  version : String
  deriving DecidableEq, Repr, Inhabited

namespace Manifest

def currentVersion : String := "0.1.0"

def fileName : String := "manifest.json"

/-- The record of a stub below the output root. -/
def entryOf (root : Path) (w : Stub.Written) : ManifestEntry :=
  ⟨w.ns, w.className, (root.below? w.path).getD w.path, w.digest, w.members⟩

/-- The record of a run that wrote these stubs and failed for those classes. -/
def ofRun (time : Instant) (module : String) (namespaces : List String) (root : Path)
    (written : List Stub.Written) (failures : List Stub.Failed) : Manifest :=
  ⟨time, module, namespaces, written.map (entryOf root), failures, currentVersion⟩

def find? (m : Manifest) (ns className : String) : Option ManifestEntry :=
  m.entries.find? fun e => e.ns == ns && e.className == className

end Manifest

end StubListing
