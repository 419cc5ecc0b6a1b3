import StubListing.Proofs.Run.Completing
import StubListing.Proofs.Run.Correctness
/-!
# What a run leaves alone

A run on a root that was there deletes what the old manifest condemns and what stands loose, makes
what it reports, and touches nothing else, whatever the old manifest says.
-/
namespace StubListing

namespace Path

/-- The path spelt with more slashes at its end. -/
def padded (p : Path) : Nat → Path
  | 0 => p
  | n + 1 => ⟨(p.padded n).text ++ "/"⟩

variable (p : Path) (n : Nat)

theorem moves_padded : (p.padded n).moves = p.moves := by
  induction n with
  | zero => rfl
  | succ n ih =>
    have htext : (p.padded (n + 1)).text = (p.padded n).text ++ "/" ++ "" := by simp [padded]
    have hidle : isIdle "" = true := rfl
    have hempty : segmentsOf "" = [""] := rfl
    rw [moves, segments, htext, segmentsOf_append_slash, List.filter_append, hempty, ← ih]
    simp [moves, segments, hidle]

theorem utf8ByteSize_padded : (p.padded n).text.utf8ByteSize = p.text.utf8ByteSize + n := by
  have hslash : "/".utf8ByteSize = 1 := by decide
  induction n with
  | zero => rfl
  | succ n ih =>
    rw [padded, String.utf8ByteSize_append, ih]
    omega

theorem toList_padded : (p.padded n).text.toList = p.text.toList ++ List.replicate n '/' := by
  induction n with
  | zero => simp [padded]
  | succ n ih =>
    rw [padded, String.toList_append, ih, List.replicate_succ', List.append_assoc]
    rfl

theorem isAbsolute_padded (h : p.text ≠ "") : (p.padded n).isAbsolute = p.isAbsolute := by
  have hne : p.text.toList ≠ [] := fun e => h (String.toList_inj.mp (by simpa using e))
  unfold isAbsolute
  rw [toList_padded, List.head?_append, List.head?_eq_some_head hne, Option.some_or]

end Path

namespace Run
open StubListing.Action StubListing.Catalog StubListing.Stub
open StubListing.Disk (Sound Anchored Leads Inside Unlinked Removes Direct AgreesOutside checkPath)

variable {c : Config} {now : Instant} {m : Module} {w w' : Workplace} {report : Report}
  {place : Location} {d d' : Disk} {s : Selected}

/-- The location lies two or more levels below the directory. -/
def Deep (place l : Location) : Prop := ∃ a b rest, l = place ++ a :: b :: rest

theorem Deep.inside {l : Location} (h : Deep place l) : Inside place l := by
  obtain ⟨a, b, rest, rfl⟩ := h
  exact ⟨a, b :: rest, rfl⟩

theorem Deep.ne_child {l : Location} (h : Deep place l) (name : String) : l ≠ place ++ [name] := by
  obtain ⟨a, b, rest, rfl⟩ := h
  intro heq
  have := congrArg List.length heq
  simp at this

theorem inside_cases {l : Location} (h : Inside place l) :
    (∃ name, l = place ++ [name]) ∨ Deep place l := by
  obtain ⟨name, rest, rfl⟩ := h
  cases rest with
  | nil => exact Or.inl ⟨name, rfl⟩
  | cons b rest => exact Or.inr ⟨name, b, rest, rfl⟩

/-- How the tree at the end of a run differs from the tree before it. -/
structure Framed (c : Config) (now : Instant) (place : Location) (report : Report) (d d' : Disk) :
    Prop where
  condemned : ∀ {l : Location} {content : ByteArray}, Deep place l →
    d.get? l = some (.file content) → (∀ x ∈ report.written, d'.find x.path ≠ .ok l) →
    Condemned c d place l → d'.get? l = none
  kept : ∀ {l : Location} {content : ByteArray}, Deep place l →
    d.get? l = some (.file content) → (∀ x ∈ report.written, d'.find x.path ≠ .ok l) →
    ¬ Condemned c d place l → d'.get? l = some (.file content)
  direct : ∀ {name : String} {e : Entry}, d'.get? (place ++ [name]) = some e →
    e = .directory ∨ c.writeManifest = true ∧ name = Manifest.fileName ∧
      e = .file (Manifest.ofRun now c.module c.namespaces c.outputRoot report.written
        report.failures).text.toUTF8
  emptied : ∀ {ns : String}, Emptied c d place ns → d'.get? (place ++ [ns]) = none
  directories : ∀ {l : Location}, d.get? l = some .directory →
    (∀ ns, Emptied c d place ns → l ≠ place ++ [ns]) → d'.get? l = some .directory
  made : ∀ {l : Location}, d.get? l = none → (d'.get? l).isSome = true →
    (∃ ns ∈ c.namespaces, l = place ++ [ns]) ∨ (∃ x ∈ report.written, d'.find x.path = .ok l) ∨
      c.writeManifest = true ∧ l = place ++ [Manifest.fileName]
  outside : AgreesOutside place d d'

namespace Parts

variable (parts : Parts c now m w report w') (hc : c.Valid)
  (hready : Ready c parts.prepared.disk place)

include hc hready

/-- A deep place holds at the end what it held when the root was prepared, or a stub that is
reported. -/
theorem get?_deep {l : Location} (hl : Deep place l)
    (hnot : ∀ x ∈ report.written, w'.disk.find x.path ≠ .ok l) :
    w'.disk.get? l = parts.prepared.disk.get? l := by
  rw [parts.ended_get? hc hready, if_neg fun h => hl.ne_child _ h.2]
  refine (parts.rendered_settled hc hready).others (fun s _ he => absurd he (hl.ne_child _)) ?_
  intro s x hs he hx
  exact hnot x ((parts.mem_written hc hready).mpr ⟨s, hs, hx⟩) (he ▸ parts.find_spot hc hready hs hx)

/-- Directories stay when the root has been prepared. -/
theorem get?_directory {l : Location} (h : parts.prepared.disk.get? l = some .directory) :
    w'.disk.get? l = some .directory := by
  have hrendered := (parts.rendered_settled hc hready).keeps.directory h
  rw [parts.ended_get? hc hready, if_neg, hrendered]
  rintro ⟨hwanted, rfl⟩
  exact (parts.manifest_free hc hready hwanted).2 hrendered

/-- What stands directly in the root at the end was there when the root was prepared, is the
directory of an exported namespace, or the manifest. -/
theorem get?_child {name : String} {e : Entry} (h : w'.disk.get? (place ++ [name]) = some e) :
    parts.prepared.disk.get? (place ++ [name]) = some e ∨
      (name ∈ c.namespaces ∧ e = .directory) ∨
        (c.writeManifest = true ∧ name = Manifest.fileName ∧
          e = .file parts.manifest.text.toUTF8) := by
  rw [parts.ended_get? hc hready] at h
  split at h
  · rename_i hmanifest
    obtain ⟨hwanted, heq⟩ := hmanifest
    exact Or.inr (Or.inr ⟨hwanted, by simpa using List.append_cancel_left heq, Option.some.inj h.symm⟩)
  · by_cases hhouse : ∃ s, Except.ok s ∈ planFor c m ∧ place ++ [name] = (jobOf c s).house place ∧
        (jobOf c s).Housable parts.prepared.disk place
    · obtain ⟨s, hs, heq, hh⟩ := hhouse
      rw [heq, (parts.rendered_settled hc hready).houses hs hh] at h
      have hname : name = s.ns := (List.cons.inj (List.append_cancel_left heq)).1
      refine Or.inr (Or.inl ⟨?_, (Option.some.inj h).symm⟩)
      rw [hname]
      exact (mem_types_of_planned hc hs).2
    · refine Or.inl ?_
      rw [← h]
      refine ((parts.rendered_settled hc hready).others ?_ ?_).symm
      · exact fun s hs heq hh => hhouse ⟨s, hs, heq, hh⟩
      · exact fun s x _ heq _ => Disk.grandchild_ne_child _ _ _ _ heq.symm

/-- What is below the root at the end and was not there when the root was prepared is the directory
of an exported namespace, a stub that is reported, or the manifest. -/
theorem origin {l : Location} (hin : Inside place l) (hfresh : parts.prepared.disk.get? l = none)
    (hsome : (w'.disk.get? l).isSome = true) :
    (∃ ns ∈ c.namespaces, l = place ++ [ns]) ∨ (∃ x ∈ report.written, w'.disk.find x.path = .ok l) ∨
      c.writeManifest = true ∧ l = place ++ [Manifest.fileName] := by
  rcases inside_cases hin with ⟨name, rfl⟩ | hdeep
  · obtain ⟨e, he⟩ := Option.isSome_iff_exists.mp hsome
    rcases parts.get?_child hc hready he with hold | ⟨hlisted, -⟩ | ⟨hwanted, rfl, -⟩
    · rw [hfresh] at hold
      cases hold
    · exact Or.inl ⟨name, hlisted, rfl⟩
    · exact Or.inr (Or.inr ⟨hwanted, rfl⟩)
  · by_cases hnot : ∀ x ∈ report.written, w'.disk.find x.path ≠ .ok l
    · rw [parts.get?_deep hc hready hdeep hnot, hfresh] at hsome
      cases hsome
    · simp only [ne_eq, not_forall, not_not] at hnot
      obtain ⟨x, hx, hfind⟩ := hnot
      exact Or.inr (Or.inl ⟨x, hx, hfind⟩)

end Parts

/-- A manifest is heeded only if it is no directory. -/
theorem Emptied.ne_manifest (h : Emptied c d place Manifest.fileName) (hd : d.Sound)
    (hroot : Leads d c.outputRoot place) : False := by
  obtain ⟨m, hm, -⟩ := h.listed
  unfold heeded at hm
  split at hm
  · unfold storedManifest Disk.text at hm
    cases hcontent : d.content (c.outputRoot.join Manifest.fileName) with
    | error e =>
      rw [hcontent] at hm
      cases hm
    | ok content =>
      have hfile := ((hroot.content_child hd isEntryName_manifest
        (Disk.unlinked_of_directory h.directory)).mp hcontent).2
      rw [h.directory] at hfile
      cases hfile
  · cases hm

/-- A run on a root that was there, at the end of a path that goes straight down, changes nothing
but what the frame allows. The bytes of the old manifest may be anything. -/
theorem framed_of_parts (parts : Parts c now m w report w') (hname : m.name = c.module)
    (hc : c.Valid) (hd : w.disk.Sound) (hroot : Leads w.disk c.outputRoot place)
    (hready : Ready c parts.prepared.disk place)
    (hremoves : Removes (Gone c w.disk place) w.disk parts.prepared.disk) :
    Framed c now place report w.disk w'.disk := by
  have houtside := hremoves.agreesOutside fun l => inside_of_gone
  have hkept := housekept_of_removes hremoves
  refine ⟨fun {l content} hl hfile hnot hcon => ?_, fun {l content} hl hfile hnot hcon => ?_,
    fun {name e} he => ?_, fun {ns} hns => ?_, fun {l} hdir hstay => ?_, fun {l} hnone hsome => ?_,
    houtside.trans (parts.ended_ready hc hready).2⟩
  · rw [parts.get?_deep hc hready hl hnot]
    exact hremoves.none_of (Or.inr (Or.inl hcon))
  · rw [parts.get?_deep hc hready hl hnot]
    refine hremoves.get?_eq_some.mpr ⟨hfile, ?_⟩
    rintro (⟨⟨name, heq⟩, -⟩ | hcon' | ⟨ns, -, heq⟩)
    · exact hl.ne_child name heq
    · exact hcon hcon'
    · exact hl.ne_child ns heq
  · rcases parts.get?_child hc hready he with hold | ⟨-, hdir⟩ | hmanifest
    · exact Or.inl (hkept.houses hold)
    · exact Or.inl hdir
    · exact Or.inr (hname ▸ hmanifest)
  · have hnone := hremoves.none_of (Or.inr (Or.inr ⟨ns, hns, rfl⟩))
    cases hg : w'.disk.get? (place ++ [ns]) with
    | none => rfl
    | some e =>
      rcases parts.get?_child hc hready hg with hold | ⟨hlisted, -⟩ | ⟨hwanted, rfl, -⟩
      · rw [hnone] at hold
        cases hold
      · exact absurd hlisted hns.dropped
      · exact (hns.ne_manifest hd hroot).elim
  · refine parts.get?_directory hc hready (hremoves.get?_eq_some.mpr ⟨hdir, ?_⟩)
    rintro (⟨-, hloose⟩ | ⟨_, -, e, -, hcon⟩ | ⟨ns, hns, heq⟩)
    · exact hloose hdir
    · obtain ⟨content, hfile, -⟩ := hcon.unchanged
      rw [hdir] at hfile
      cases hfile
    · exact hstay ns hns heq
  · by_cases hin : Inside place l
    · have hfresh : parts.prepared.disk.get? l = none := by
        cases hg : parts.prepared.disk.get? l with
        | none => rfl
        | some e =>
          rw [(hremoves.get?_eq_some.mp hg).1] at hnone
          cases hnone
      exact parts.origin hc hready hin hfresh hsome
    · rw [(houtside.trans (parts.ended_ready hc hready).2).outside hin, hnone] at hsome
      cases hsome

/-! ## A stub that was left

A root with one stub and a manifest that names it. The next run exports nothing, and its settings may
spell the root with slashes at the end. -/

/-- The entry for a stub that a run has left. -/
def leftEntry : ManifestEntry :=
  ⟨"Game", "AAAAAAAAAAAAAAAAAAAAAAAAAA", ⟨"Game/AAAAAAAAAAAAAAAAAAAAAAAAAA.stub"⟩,
    Digest.Sha256.ofBytes "x".toUTF8, ⟨0, 0, 0⟩⟩

def leftManifest : Manifest :=
  ⟨⟨⟨2024, 1, 1⟩, 0, 0⟩, "M", [], [leftEntry], [], Manifest.currentVersion⟩

def leftPlace : Location := ["out", "Game", "AAAAAAAAAAAAAAAAAAAAAAAAAA.stub"]

/-- The tree with that stub and the manifest. -/
def leftDisk : Disk :=
  ⟨[(["out"], .directory), (["out", "Game"], .directory), (leftPlace, .file "x".toUTF8),
    (["out", Manifest.fileName], .file leftManifest.text.toUTF8)], []⟩

/-- Settings that export nothing to that root, spelt with more slashes at its end. -/
def nextConfig (n : Nat) : Config :=
  { Config.standard with
    module := "M", namespaces := [], outputRoot := Path.padded ⟨"out"⟩ n, writeManifest := false }

theorem nextConfig_valid (n : Nat) : (nextConfig n).Valid := by
  refine ⟨?_, by simp [nextConfig], by simp [nextConfig]⟩
  show (nextConfig 0).firstFault? = none
  decide

theorem leftDisk_leads (n : Nat) : Leads leftDisk (nextConfig n).outputRoot ["out"] := by
  have hunlinked := Disk.unlinked_of_noLinks (by decide : leftDisk.noLinks = true)
  have hplain : Direct leftDisk ⟨"out"⟩ := ⟨by decide, fun l _ => hunlinked l⟩
  exact (hplain.anchored_of_isDirectory (by decide)).leads.congr (Path.moves_padded _ n)
    (Path.isAbsolute_padded _ n (by decide))

theorem leftDisk_direct (n : Nat) : Direct leftDisk (nextConfig n).outputRoot := by
  refine ⟨?_, fun l _ => Disk.unlinked_of_noLinks (by decide) l⟩
  rw [show (nextConfig n).outputRoot.moves = _ from Path.moves_padded _ n]
  decide

theorem size_nextConfig (n : Nat) : (nextConfig n).outputRoot.text.utf8ByteSize = 3 + n :=
  Path.utf8ByteSize_padded _ n

theorem leftDisk_spelled (n : Nat) : leftDisk.spelled (nextConfig n).outputRoot = ["out"] :=
  ((leftDisk_direct n).anchored (leftDisk_leads n)).1.symm

theorem entryName_left (n : Nat) :
    entryName (nextConfig n) leftEntry = "AAAAAAAAAAAAAAAAAAAAAAAAAA.stub" := by
  show entryName (nextConfig 0) leftEntry = _
  decide

variable {n : Nat}

theorem checkPath_nextConfig {name : String} (hn : Path.IsEntryName name)
    (hnull : '\x00' ∉ name.toList) (hlen : 4 + n + name.utf8ByteSize < Disk.pathLimit) :
    checkPath ((nextConfig n).outputRoot.join name) = .ok () := by
  have hsize := size_nextConfig n
  refine Disk.checkPath_join hn ?_ hnull (by omega)
  show '\x00' ∉ (Path.padded ⟨"out"⟩ n).text.toList
  rw [Path.toList_padded, List.mem_append, List.mem_replicate, not_or]
  exact ⟨by decide, fun h => absurd h.2 (by decide)⟩

theorem leftDisk_passable (h : n ≤ 4060) : Passable (nextConfig n) leftDisk ["out"] := by
  have hsize := size_nextConfig n
  have hmanifest : checkPath ((nextConfig n).outputRoot.join Manifest.fileName) = .ok () :=
    checkPath_nextConfig isEntryName_manifest (by decide)
      (by rw [show Manifest.fileName.utf8ByteSize = 13 by decide, Disk.pathLimit]; omega)
  have hroot : checkPath (nextConfig n).outputRoot = .ok () :=
    Disk.checkPath_of_isPrefix (Path.text_isPrefix_join _ isEntryName_manifest)
      (fun hempty => by simp [hempty] at hsize; omega) hmanifest
  refine ⟨by decide, ((leftDisk_direct n).anchored (leftDisk_leads n)).2,
    (leftDisk_leads n).isDirectory hroot, fun l target _ hl => ?_, fun {name e} he hfile => ?_, ?_⟩
  · exact absurd hl (Disk.unlinked_of_noLinks (by decide) l target)
  · have hmem : (["out"] ++ [name], e) ∈ leftDisk.entries :=
      (Disk.lookup_eq_some_iff_mem (by decide)).mp he
    simp only [leftDisk, leftPlace, List.cons_append, List.nil_append, List.mem_cons,
      Prod.mk.injEq, List.cons.injEq, true_and, List.not_mem_nil, or_false] at hmem
    rcases hmem with ⟨hnil, -⟩ | ⟨-, rfl⟩ | ⟨⟨-, hnil⟩, -⟩ | ⟨⟨rfl, -⟩, -⟩
    · cases hnil
    · exact absurd rfl hfile
    · cases hnil
    · exact hmanifest
  · intro hwanted
    cases hwanted

theorem heeded_leftDisk (h : n ≤ 4060) : heeded (nextConfig n) leftDisk = some leftManifest := by
  have hpass := leftDisk_passable h
  have hthere : leftDisk.get? (["out"] ++ [Manifest.fileName]) =
      some (.file leftManifest.text.toUTF8) := rfl
  have hcontent := ((leftDisk_leads n).content_child hpass.sound isEntryName_manifest
    (Disk.unlinked_of_file hthere)).mpr ⟨hpass.nameable hthere (by simp), hthere⟩
  have hwritable : leftManifest.Writable := by
    refine ⟨⟨by decide, by decide, by decide, by decide⟩, fun e he => ?_⟩
    rw [List.mem_singleton.mp he]
    exact ⟨by decide, by decide, by decide⟩
  exact storedManifest_of_text (Disk.text_of_content hcontent) hwritable

/-- The next run goes through and writes no stub. -/
theorem exists_run_leftDisk (h : n ≤ 4060) (now : Instant) :
    ∃ report w', (generate (nextConfig n) now ⟨[⟨"M", []⟩]⟩).Returns ⟨leftDisk, []⟩ report w' ∧
      report.written = [] ∧ Nonempty (Parts (nextConfig n) now ⟨"M", []⟩ ⟨leftDisk, []⟩ report w') := by
  obtain ⟨report, w', hrun⟩ : (generate (nextConfig n) now ⟨[⟨"M", []⟩]⟩).Completes ⟨leftDisk, []⟩ :=
    generate_completes (nextConfig_valid n) rfl (leftDisk_passable h)
  obtain ⟨m, hm, ⟨parts⟩⟩ := generate_returns hrun
  cases hm
  exact ⟨report, w', hrun, parts.written_eq, ⟨parts⟩⟩

/-- The path that the entry stands for has more bytes than the system takes. -/
theorem not_condemned_of_long (hlong : 4058 ≤ n) (h : n ≤ 4060) :
    ¬ Condemned (nextConfig n) leftDisk ["out"] leftPlace := by
  rintro ⟨m, hm, e, he, hcon⟩
  rw [heeded_leftDisk h] at hm
  cases hm
  rw [List.mem_singleton.mp he] at hcon
  have hhouse := (Path.utf8ByteSize_join (nextConfig n).outputRoot
    (Path.isEntryName_of_isFileName hcon.ns)).1
  have hspot := (Path.utf8ByteSize_join ((nextConfig n).outputRoot.join leftEntry.ns)
    (isEntryName_entryName (nextConfig_valid n) hcon.className)).1
  have hlimit := (Disk.checkPath_eq_ok.mp hcon.reachable).2.2
  rw [size_nextConfig, show leftEntry.ns.utf8ByteSize = 4 by decide] at hhouse
  rw [entryName_left, show "AAAAAAAAAAAAAAAAAAAAAAAAAA.stub".utf8ByteSize = 31 by decide] at hspot
  rw [entryPath, entryName_left, Disk.pathLimit] at hlimit
  omega

/-! ## The frame of a run -/

/-- A run on a root at the end of a straight path changes nothing but what the frame allows, whatever
is in the file of the old manifest. -/
theorem generate_frame {doc : Document} (hc : c.Valid) (hd : w.disk.Sound)
    (hdir : w.disk.isDirectory c.outputRoot = true) (hdirect : Direct w.disk c.outputRoot)
    (hlinks : LinksLoose w.disk (w.disk.spelled c.outputRoot))
    (h : (generate c now doc).Returns w report w') :
    Framed c now (w.disk.spelled c.outputRoot) report w.disk w'.disk := by
  obtain ⟨m, hm, ⟨parts⟩⟩ := generate_returns h
  have hroot := hdirect.anchored_of_isDirectory hdir
  obtain ⟨hremoves, hready⟩ := parts.ready_of_there hc hd hroot hdir hlinks
  exact framed_of_parts parts (Document.mem_of_require hm).2 hc hd hroot.leads hready hremoves

/-- The stub that was left is gone after the next run. -/
theorem generate_frame_of_left :
    ∃ report w', (generate (nextConfig 0) ⟨⟨2024, 1, 2⟩, 0, 0⟩ ⟨[⟨"M", []⟩]⟩).Returns ⟨leftDisk, []⟩
      report w' ∧ w'.disk.get? leftPlace = none := by
  have hpass := leftDisk_passable (Nat.zero_le 4060)
  obtain ⟨report, w', hrun, hwritten, -⟩ :=
    exists_run_leftDisk (Nat.zero_le 4060) ⟨⟨2024, 1, 2⟩, 0, 0⟩
  have hframed := generate_frame (nextConfig_valid 0) hpass.sound hpass.present (leftDisk_direct 0)
    (leftDisk_spelled 0 ▸ hpass.linksLoose) hrun
  rw [leftDisk_spelled] at hframed
  have hcondemned : Condemned (nextConfig 0) leftDisk ["out"] leftPlace :=
    ⟨leftManifest, heeded_leftDisk (Nat.zero_le 4060), leftEntry, List.mem_singleton_self _,
      by decide, by decide, by decide, by decide, _, rfl, rfl⟩
  refine ⟨report, w', hrun, hframed.condemned ⟨_, _, _, rfl⟩ rfl ?_ hcondemned⟩
  simp [hwritten]

/-- If the path of the stub is too long for the system, the next run finds no file there, and the stub
stays, although an entry names it and has its digest. -/
theorem left_kept_of_long :
    (nextConfig 4060).Valid ∧ leftDisk.Sound ∧
      leftDisk.isDirectory (nextConfig 4060).outputRoot = true ∧
      Direct leftDisk (nextConfig 4060).outputRoot ∧
      LinksLoose leftDisk (leftDisk.spelled (nextConfig 4060).outputRoot) ∧
      heeded (nextConfig 4060) leftDisk = some leftManifest ∧ leftEntry ∈ leftManifest.entries ∧
      Path.isFileName leftEntry.ns = true ∧ Path.isFileName leftEntry.className = true ∧
      leftPlace = leftDisk.spelled (nextConfig 4060).outputRoot ++ [leftEntry.ns] ++
        [entryName (nextConfig 4060) leftEntry] ∧
      leftDisk.get? leftPlace = some (.file "x".toUTF8) ∧
      Digest.Sha256.ofBytes "x".toUTF8 = leftEntry.digest ∧
      ∃ report w', (generate (nextConfig 4060) ⟨⟨2024, 1, 2⟩, 0, 0⟩ ⟨[⟨"M", []⟩]⟩).Returns
        ⟨leftDisk, []⟩ report w' ∧ report.written = [] ∧
          w'.disk.get? leftPlace = some (.file "x".toUTF8) := by
  have hpass := leftDisk_passable (Nat.le_refl 4060)
  obtain ⟨report, w', hrun, hwritten, ⟨parts⟩⟩ :=
    exists_run_leftDisk (Nat.le_refl 4060) ⟨⟨2024, 1, 2⟩, 0, 0⟩
  obtain ⟨hremoves, hready⟩ := parts.ready_of_there (nextConfig_valid _) hpass.sound hpass.anchored
    hpass.present hpass.linksLoose
  have hframed := framed_of_parts parts rfl (nextConfig_valid _) hpass.sound hpass.anchored.leads
    hready hremoves
  have hkept : w'.disk.get? leftPlace = some (.file "x".toUTF8) :=
    hframed.kept ⟨_, _, _, rfl⟩ rfl (by simp [hwritten])
      (not_condemned_of_long (by decide) (Nat.le_refl 4060))
  refine ⟨nextConfig_valid _, hpass.sound, hpass.present, leftDisk_direct _, ?_,
    heeded_leftDisk (Nat.le_refl 4060), List.mem_singleton_self _, by decide, by decide, ?_, rfl, rfl,
    report, w', hrun, hwritten, hkept⟩
  · rw [leftDisk_spelled]
    exact hpass.linksLoose
  · rw [leftDisk_spelled, entryName_left]
    rfl

end Run

end StubListing
