import StubListing.Manifest.Basic
import StubListing.Json.Value
/-!
# Writing manifests

The JSON form of a manifest, members in the order in which they are declared.
-/
namespace StubListing
open StubListing.Json (Value)

def ManifestEntry.value (e : ManifestEntry) : Value :=
  .object [("namespace", .text e.ns), ("class_name", .text e.className),
    ("path", .text e.path.text), ("sha256", .text e.digest),
    ("properties", .number e.members.properties), ("fields", .number e.members.fields),
    ("methods", .number e.members.methods)]

def Stub.Failed.value (f : Stub.Failed) : Value :=
  .object [("namespace", .text f.ns), ("class_name", .text f.className), ("error", .text f.error)]

def Manifest.value (m : Manifest) : Value :=
  .object [("generated_at", .text m.time.text), ("module", .text m.module),
    ("namespaces", .texts m.namespaces), ("entries", .array (m.entries.map ManifestEntry.value)),
    ("failures", .array (m.failures.map Stub.Failed.value)), ("version", .text m.version)]

/-- The text of a manifest in lines. -/
def Manifest.text (m : Manifest) : String := m.value.pretty

end StubListing
