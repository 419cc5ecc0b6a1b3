import StubListing.Config.Basic
import StubListing.Decode.Record
/-!
# Reading configurations

The settings by their names in a configuration, in the order in which they are declared. Each one
may be left out and then is what it is in the standard configuration.
-/
namespace StubListing.Config
open StubListing.Decode

variable {m : Type → Type} [Monad m] {N β : Type}

/-- A setting, read by `read`. -/
def setting (name : String) (read : N → m β) (set : β → Config → Config) : Field m N Config :=
  ⟨name, false, fun node draft => do pure (set (← read node) draft)⟩

def readPath (source : Source m N) (node : N) : m Path := do
  pure ⟨← source.text .path node⟩

def read (source : Source m N) (room : Nat) : N → m Config :=
  Schema.read source room ⟨"GeneratorConfig",
      [setting "module" (source.text .text) fun module c => { c with module },
        setting "namespaces" (source.listOf (fun _ => source.text .text) (room - 1))
          fun namespaces c => { c with namespaces },
        setting "output_root" (readPath source) fun outputRoot c => { c with outputRoot },
        setting "catalog_path" (readPath source) fun catalogPath c => { c with catalogPath },
        setting "file_extension" (source.text .text)
          fun fileExtension c => { c with fileExtension },
        setting "include_inherited" source.boolean
          fun includeInherited c => { c with includeInherited },
        setting "prune_stale" source.boolean fun pruneStale c => { c with pruneStale },
        setting "parallel_threads" (source.optionOf source.count)
          fun threads c => { c with threads },
        setting "show_progress" source.boolean fun showProgress c => { c with showProgress },
        setting "write_manifest" source.boolean fun writeManifest c => { c with writeManifest }],
      standard⟩

end StubListing.Config
