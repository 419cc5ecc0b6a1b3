import StubListing.Manifest.Basic
import StubListing.Decode.Record
import StubListing.Json.Source
/-!
# Reading manifests

The members of a manifest by their names, in the order in which they are declared. Only the list
of failures may be left out.
-/
namespace StubListing
open StubListing.Decode

variable {m : Type → Type} [Monad m] {N α β : Type}

/-- A member that has to be there, read by `read`. -/
def needed (name : String) (read : N → m β) (set : β → α → α) : Field m N α :=
  ⟨name, true, fun node draft => do pure (set (← read node) draft)⟩

def Instant.read (source : Source m N) (node : N) : m Instant := do
  match Instant.parse (← source.text .time node) with
  | .ok time => pure time
  | .error fault => source.fail (.badTime fault)

def ManifestEntry.read (source : Source m N) (room : Nat) : N → m ManifestEntry :=
  Schema.read source room ⟨"ManifestEntry",
      [needed "namespace" (source.text .text) fun ns e => { e with ns },
        needed "class_name" (source.text .text) fun className e => { e with className },
        needed "path" (source.text .path) fun path e => { e with path := ⟨path⟩ },
        needed "sha256" (source.text .text) fun digest e => { e with digest },
        needed "properties" source.count
          fun properties e => { e with members := { e.members with properties } },
        needed "fields" source.count
          fun fields e => { e with members := { e.members with fields } },
        needed "methods" source.count
          fun methods e => { e with members := { e.members with methods } }],
      ⟨"", "", ⟨""⟩, "", ⟨0, 0, 0⟩⟩⟩

def Stub.Failed.read (source : Source m N) (room : Nat) : N → m Stub.Failed :=
  Schema.read source room ⟨"ClassFailure",
      [needed "namespace" (source.text .text) fun ns f => { f with ns },
        needed "class_name" (source.text .text) fun className f => { f with className },
        needed "error" (source.text .text) fun error f => { f with error }],
      ⟨"", "", ""⟩⟩

def Manifest.read (source : Source m N) (room : Nat) : N → m Manifest :=
  Schema.read source room ⟨"GenerationManifest",
      [needed "generated_at" (Instant.read source) fun time d => { d with time },
        needed "module" (source.text .text) fun module d => { d with module },
        needed "namespaces" (source.listOf (fun _ => source.text .text) (room - 1))
          fun namespaces d => { d with namespaces },
        needed "entries" (source.listOf (ManifestEntry.read source) (room - 1))
          fun entries d => { d with entries },
        ⟨"failures", false, fun node d => do
          pure { d with failures := ← source.listOf (Stub.Failed.read source) (room - 1) node }⟩,
        needed "version" (source.text .text) fun version d => { d with version }],
      ⟨default, "", [], [], [], ""⟩⟩

def Manifest.parse (text : String) : Except Json.Fault Manifest := Json.decode Manifest.read text

end StubListing
