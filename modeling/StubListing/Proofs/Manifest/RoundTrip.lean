import StubListing.Manifest.Reading
import StubListing.Manifest.Writing
import StubListing.Proofs.Json.Record
import StubListing.Proofs.Instant
/-!
# Reading back a manifest

A manifest that was written is read back as it was, whatever names, paths and messages are in it.
-/
namespace StubListing
open StubListing.Json (Value Node Fault Fills read_object listOf_array listOf_texts asCount_node)
open StubListing.Decode (Source)

/-- Numbers that are written can be read. -/
structure Stub.MemberCounts.Countable (m : Stub.MemberCounts) : Prop where
  properties : m.properties < UInt64.size
  fields : m.fields < UInt64.size
  methods : m.methods < UInt64.size

/-- A manifest as a run can write it. -/
structure Manifest.Writable (m : Manifest) : Prop where
  time : m.time.Valid
  countable : ∀ e ∈ m.entries, e.members.Countable

theorem bind_ok {α β : Type} {x : Except Fault β} {b : β} {next : β → Except Fault α}
    (h : x = .ok b) : (x >>= next) = next b := by
  rw [h]
  rfl

theorem needed_fill {α β : Type} {name : String} {read : Node → Except Fault β} {set : β → α → α}
    {node : Node} {b : β} (h : read node = .ok b) (draft : α) :
    (needed name read set).fill node draft = .ok (set b draft) := bind_ok h

theorem text_fill {α : Type} {name : String} {expected : Decode.Expected} {set : String → α → α}
    (s : String) (draft : α) :
    (needed name (Json.source.text expected) set).fill (Value.text s).node draft =
      .ok (set s draft) := by
  have htext : Json.source.text expected (Value.text s).node = .ok s := rfl
  exact needed_fill htext draft

theorem ManifestEntry.read_value {e : ManifestEntry} (h : e.members.Countable) (room : Nat) :
    ManifestEntry.read Json.source (room + 1) e.value.node = .ok e := by
  refine read_object (by decide) ?_ room
  refine .next (text_fill _ _) <| .next (text_fill _ _) <| .next (text_fill _ _) <|
    .next (text_fill _ _) ?_
  refine .next (needed_fill (asCount_node h.properties) _) ?_
  refine .next (needed_fill (asCount_node h.fields) _) ?_
  refine .next (needed_fill (asCount_node h.methods) _) ?_
  exact .none _

theorem Stub.Failed.read_value (f : Stub.Failed) (room : Nat) :
    Stub.Failed.read Json.source (room + 1) f.value.node = .ok f := by
  refine read_object (by decide) ?_ room
  refine .next (text_fill _ _) <| .next (text_fill _ _) <| .next (text_fill _ _) ?_
  exact .none _

theorem Instant.read_text {t : Instant} (h : t.Valid) :
    Instant.read Json.source (Value.text t.text).node = .ok t := by
  have htext : Json.source.text .time (Value.text t.text).node = .ok t.text := rfl
  simp only [Instant.read, htext, bind, Except.bind, Instant.parse_text h]
  rfl

theorem Manifest.read_value {m : Manifest} (h : m.Writable) (room : Nat) :
    Manifest.read Json.source (room + 3) m.value.node = .ok m := by
  have hentries : Json.source.listOf (ManifestEntry.read Json.source) (room + 2)
      (Value.array (m.entries.map ManifestEntry.value)).node = .ok m.entries :=
    listOf_array fun e he => ManifestEntry.read_value (h.countable e he) room
  have hfailures : Json.source.listOf (Stub.Failed.read Json.source) (room + 2)
      (Value.array (m.failures.map Stub.Failed.value)).node = .ok m.failures :=
    listOf_array fun f _ => Stub.Failed.read_value f room
  refine read_object ?_ ?_ (room + 2)
  · show ["generated_at", "module", "namespaces", "entries", "failures", "version"].Nodup
    decide
  refine .next (needed_fill (Instant.read_text h.time) _) ?_
  refine .next (text_fill _ _) ?_
  refine .next (needed_fill (listOf_texts m.namespaces _) _) ?_
  refine .next (needed_fill hentries _) ?_
  refine .next (bind_ok hfailures) ?_
  refine .next (text_fill _ _) ?_
  exact .none _

/-- What is written is read back. -/
theorem Manifest.parse_text {m : Manifest} (h : m.Writable) : Manifest.parse m.text = .ok m :=
  Json.decode_pretty (Manifest.read_value h 124)

end StubListing
