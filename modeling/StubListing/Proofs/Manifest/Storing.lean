import StubListing.Manifest.Storing
import StubListing.Proofs.Manifest.RoundTrip
import StubListing.Proofs.Json.Reading
import StubListing.Proofs.Disk.Lasting
/-!
# Storing manifests

A manifest that was saved is loaded as it was, and saving what was loaded gives the same text. It
holds of every manifest there can be, whether it was loaded from some file or put together after a
run: what can be read at all can be written and read again.
-/
namespace StubListing
open StubListing.Json (Node Fault Value KeptBy keptBy_nil keptBy_cons bind_eq_ok)

/-! ## What was read can be written -/

section Reading

variable {α β : Type} {P : List String → α → Prop}

/-- A member that has to be there keeps what setting it to anything that was read keeps. -/
theorem keptBy_needed {name : String} {read : Node → Except Fault β} {set : β → α → α}
    {fields : List (Decode.Field (Except Fault) Node α)}
    (hset : ∀ {seen : List String} {draft : α} {node : Node} {b : β}, P seen draft →
      read node = .ok b → P (name :: seen) (set b draft))
    (hrest : KeptBy fields P) : KeptBy (needed name read set :: fields) P := by
  refine keptBy_cons (fun hdraft hfill => ?_) hrest
  obtain ⟨b, hread, hpure⟩ := bind_eq_ok.mp hfill
  cases hpure
  exact hset hdraft hread

end Reading

theorem ManifestEntry.countable_of_read {room : Nat} {node : Node} {e : ManifestEntry}
    (h : ManifestEntry.read Json.source room node = .ok e) : e.members.Countable := by
  have hkept := Json.read_keeps (P := fun _ (e : ManifestEntry) => e.members.Countable) ?_
    ⟨by decide, by decide, by decide⟩ h
  · obtain ⟨_, hcountable, -⟩ := hkept
    exact hcountable
  refine keptBy_needed (fun hdraft _ => hdraft) <| keptBy_needed (fun hdraft _ => hdraft) <|
    keptBy_needed (fun hdraft _ => hdraft) <| keptBy_needed (fun hdraft _ => hdraft) ?_
  refine keptBy_needed (fun hdraft hread => ⟨Json.asCount_lt hread, hdraft.fields,
    hdraft.methods⟩) ?_
  refine keptBy_needed (fun hdraft hread => ⟨hdraft.properties, Json.asCount_lt hread,
    hdraft.methods⟩) ?_
  refine keptBy_needed (fun hdraft hread => ⟨hdraft.properties, hdraft.fields,
    Json.asCount_lt hread⟩) ?_
  exact keptBy_nil

theorem Instant.valid_of_read {node : Node} {t : Instant}
    (h : Instant.read Json.source node = .ok t) : t.Valid := by
  obtain ⟨text, -, h⟩ := bind_eq_ok.mp h
  split at h
  · rename_i hparse
    cases h
    exact Instant.valid_of_parse hparse
  · cases h

namespace Manifest

/-- What is known of a manifest while it is read. -/
structure Draft (seen : List String) (m : Manifest) : Prop where
  time : "generated_at" ∈ seen → m.time.Valid
  countable : ∀ e ∈ m.entries, e.members.Countable

theorem writable_of_read {room : Nat} {node : Node} {m : Manifest}
    (h : Manifest.read Json.source room node = .ok m) : m.Writable := by
  have hkept := Json.read_keeps (P := Draft) ?_ ⟨nofun, fun _ he => absurd he List.not_mem_nil⟩ h
  · obtain ⟨seen, hdraft, hseen⟩ := hkept
    exact ⟨hdraft.time (hseen _ List.mem_cons_self rfl), hdraft.countable⟩
  -- Members other than the time and the entries.
  have hother : ∀ {seen : List String} {draft filled : Manifest} {name : String},
      name ≠ "generated_at" → Draft seen draft → filled.time = draft.time →
      filled.entries = draft.entries → Draft (name :: seen) filled := by
    intro seen draft filled name hname hdraft htime hentries
    refine ⟨fun hin => ?_, hentries ▸ hdraft.countable⟩
    rw [htime]
    exact hdraft.time ((List.mem_cons.mp hin).resolve_left hname.symm)
  refine keptBy_needed (fun hdraft hread => ⟨fun _ => Instant.valid_of_read hread,
    hdraft.countable⟩) ?_
  refine keptBy_needed (fun hdraft _ => hother (by decide) hdraft rfl rfl) ?_
  refine keptBy_needed (fun hdraft _ => hother (by decide) hdraft rfl rfl) ?_
  refine keptBy_needed (fun hdraft hread => ⟨fun hin => ?_, fun e he => ?_⟩) ?_
  · exact hdraft.time ((List.mem_cons.mp hin).resolve_left (by decide))
  · obtain ⟨depth, item, hitem⟩ := Json.mem_of_listOf hread he
    exact ManifestEntry.countable_of_read hitem
  refine keptBy_cons (fun hdraft hfill => ?_) ?_
  · obtain ⟨failures, -, hpure⟩ := bind_eq_ok.mp hfill
    cases hpure
    exact hother (show "failures" ≠ "generated_at" by decide) hdraft rfl rfl
  refine keptBy_needed (fun hdraft _ => hother (by decide) hdraft rfl rfl) ?_
  exact keptBy_nil

/-- A manifest that was read can be written. -/
theorem writable_of_parse {text : String} {m : Manifest} (h : parse text = .ok m) :
    m.Writable := by
  unfold parse Json.decode at h
  dsimp only at h
  split at h
  · cases h
  · rename_i hread
    split at h
    · cases h
    · split at h
      · cases h
        exact writable_of_read hread
      · cases h

/-! ## Loading and saving -/

section Storing
open StubListing.Action

variable {m : Manifest} {p : Path} {w w' : Workplace}

theorem ending_load (p : Path) (w : Workplace) :
    (load p).ending w = (match w.disk.text p with
      | .ok text => match parse text with
        | .ok m => .ok m
        | .error fault => .error ⟨["Failed to parse manifest file " ++ p.text], .json fault⟩
      | .error e => .error ⟨["Failed to read file " ++ p.text], .system e⟩, w) := by
  unfold load
  rw [ending_bind, Files.ending_readText]
  cases w.disk.text p with
  | error e => rfl
  | ok text =>
    simp only
    cases parse text <;> rfl

theorem returns_load :
    (load p).Returns w m w' ↔ ∃ text, w.disk.text p = .ok text ∧ parse text = .ok m ∧ w' = w := by
  rw [Returns, ending_load]
  cases w.disk.text p with
  | error e => simp
  | ok text =>
    simp only [Except.ok.injEq, exists_eq_left', Prod.mk.injEq, eq_comm (a := w)]
    cases parse text <;> simp

theorem returns_save {u : Unit} (h : (m.save p).Returns w u w') :
    ∃ w₁, (Files.writeText p m.text).Returns w () w₁ ∧ w'.disk = w₁.disk := by
  obtain ⟨_, w₁, hwrite, hnote⟩ := returns_bind.mp h
  exact ⟨w₁, hwrite, disk_of_note hnote⟩

theorem completes_save_iff :
    (m.save p).Completes w ↔ (Files.openFile w.disk p).1.isOk = true := by
  rcases hopen : Files.openFile w.disk p with ⟨f | place, d⟩
  · refine ⟨fun ⟨_, _, h⟩ => ?_, fun h => by cases h⟩
    obtain ⟨_, hwrite, -⟩ := returns_save h
    obtain ⟨place, d, hact, -⟩ := Files.returns_writeText.mp hwrite
    rw [hopen] at hact
    cases hact
  · refine ⟨fun _ => rfl, fun _ => completes_bind ?_ fun _ w₁ _ => completes_note _ _ w₁⟩
    exact ⟨(), _, Files.returns_writeText.mpr ⟨place, d, hopen, rfl⟩⟩

theorem text_of_save {u : Unit} (h : (m.save p).Returns w u w') :
    w'.disk.text p = .ok m.text := by
  obtain ⟨w₁, hwrite, hsame⟩ := returns_save h
  rw [hsame]
  exact Files.text_of_writeText hwrite

/-- The manifests there can be: those that were loaded from a file, whatever is in it, and those that
are put together after a run, at any time that a text can tell. -/
inductive Arises : Manifest → Prop
  | loaded {m : Manifest} {p : Path} {w w' : Workplace} : (load p).Returns w m w' → Arises m
  | built {text : String} {time : Instant} {module : String} {namespaces : List String}
      {root : Path} {written : List Stub.Written} {failures : List Stub.Failed} :
      Instant.parse text = .ok time → (∀ x ∈ written, x.members.Countable) →
      Arises (ofRun time module namespaces root written failures)

theorem Arises.writable (h : m.Arises) : m.Writable := by
  cases h with
  | loaded hload =>
    obtain ⟨text, -, hparse, -⟩ := returns_load.mp hload
    exact writable_of_parse hparse
  | built htime hcount =>
    refine ⟨Instant.valid_of_parse htime, fun e he => ?_⟩
    obtain ⟨x, hx, rfl⟩ := List.mem_map.mp he
    exact hcount x hx

/-- Saving a manifest and loading it again gives the same manifest, wherever it is saved and whatever
is on the disk, and what was loaded is saved with the same text. Saving comes to an end exactly if the
file can be opened. -/
theorem save_load (hm : m.Arises) (p : Path) (w : Workplace) :
    ((m.save p).Completes w ↔ (Files.openFile w.disk p).1.isOk = true) ∧
      ∀ w₁, (m.save p).Returns w () w₁ →
        w₁.disk.text p = .ok m.text ∧ (load p).Returns w₁ m w₁ ∧
          ∀ loaded w₂, (load p).Returns w₁ loaded w₂ →
            loaded = m ∧ ∀ q w₃, (loaded.save q).Returns w₂ () w₃ →
              w₃.disk.text q = w₁.disk.text p := by
  refine ⟨completes_save_iff, fun w₁ hsave => ?_⟩
  have htext := text_of_save hsave
  have hload : (load p).Returns w₁ m w₁ :=
    returns_load.mpr ⟨m.text, htext, parse_text hm.writable, rfl⟩
  refine ⟨htext, hload, fun loaded w₂ hloaded => ?_⟩
  have hsame : (Except.ok loaded, w₂) = (Except.ok m, w₁) := hloaded.symm.trans hload
  cases hsame
  refine ⟨rfl, fun q w₃ hagain => ?_⟩
  rw [htext, text_of_save hagain]

/-- A manifest written in a leap second, with names that have to be escaped and the largest count. -/
theorem save_load_of_leap_second :
    let m := ofRun ⟨⟨2016, 12, 31⟩, 86399, 1500000000⟩ "M\\\"" ["\t", "𝄞"] ⟨"G"⟩
      [⟨"𝄞", "A", ⟨"G/𝄞/A.py"⟩, "00", ⟨18446744073709551615, 0, 1⟩⟩] [⟨"\t", "B", "\x01\n"⟩]
    let w : Workplace := ⟨⟨[], []⟩, []⟩
    ∃ w₁, (m.save ⟨"G/manifest.json"⟩).Returns w () w₁ ∧
      (load ⟨"G/manifest.json"⟩).Returns w₁ m w₁ := by
  intro m w
  have htime : Instant.parse "2016-12-31t23:59:60.5 utc" =
      .ok ⟨⟨2016, 12, 31⟩, 86399, 1500000000⟩ := by decide +kernel
  have hm : m.Arises := by
    refine .built htime ?_
    simp only [List.mem_singleton, forall_eq]
    exact ⟨by decide, by decide, by decide⟩
  obtain ⟨hcompletes, hsaved⟩ := save_load hm ⟨"G/manifest.json"⟩ w
  obtain ⟨_, w₁, hsave⟩ := hcompletes.mpr (by decide +kernel)
  exact ⟨w₁, hsave, (hsaved w₁ hsave).2.1⟩

end Storing

end Manifest

end StubListing
