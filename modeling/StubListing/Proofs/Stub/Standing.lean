import StubListing.Proofs.Stub.Writing
/-!
# Stubs among others

While one stub is written, others change the tree too. A stub stands well at its stage if its own
two places hold what the stage calls for; its steps keep it so, and so does every change that
leaves its file alone and removes no directory.
-/
namespace StubListing

namespace Disk

theorem Keeps.put {d d' : Disk} {place : Location} {e : Entry} (hk : Keeps d d') (hne : place ≠ [])
    (hu : Unlinked d place) (hdir : d.get? place = some .directory → e = .directory) :
    Keeps d (d'.put place e) := by
  refine ⟨hk.home, fun {l} hl => ?_, fun {l t} hl => ?_⟩
  · rw [get?_put _ _ _ _ hne]
    split
    · rename_i hself
      rw [hdir (hself ▸ hl)]
    · exact hk.directory hl
  · rw [get?_put _ _ _ _ hne, if_neg]
    · exact hk.link hl
    · rintro rfl
      exact hu t hl

end Disk

namespace Stub.Job
open StubListing.Disk (Leads Unlinked Keeps)
open StubListing.Files (housing opening)

variable {j k : Job} {d d' d'' : Disk} {root : Location} {stage : Stage}

/-- The directory of the stub is there or can be made. -/
def Housable (j : Job) (d : Disk) (root : Location) : Prop :=
  housing j.housePath j.ns (d.get? (j.house root)) = .ok ()

/-- What becomes of the stub in this tree. -/
def fateIn (j : Job) (d : Disk) (root : Location) : Except Failure Written :=
  j.fate (d.get? (j.house root)) (d.get? (j.spot root))

/-- The stub's places in a tree, after its writing has come to the stage; `d` is the tree at the
start. -/
inductive Standing (j : Job) (d : Disk) (root : Location) (d' : Disk) : Stage → Prop
  | waiting (hspot : d'.get? (j.spot root) = d.get? (j.spot root)) : Standing j d root d' .waiting
  | housed (hhouse : j.Housable d root) (hdir : d'.get? (j.house root) = some .directory)
      (hspot : d'.get? (j.spot root) = d.get? (j.spot root)) :
      Standing j d root d' (.housed j.spotPath)
  | opened (hhouse : j.Housable d root) (hdir : d'.get? (j.house root) = some .directory)
      (hfate : j.fateIn d root = .ok (j.written j.spotPath))
      (hspot : d'.get? (j.spot root) = some (.file .empty)) :
      Standing j d root d' (.opened j.spotPath (j.spot root))
  | finished (hhouse : j.Housable d root → d'.get? (j.house root) = some .directory)
      (hwritten : ∀ w, j.fateIn d root = .ok w →
        d'.get? (j.spot root) = some (.file j.text.toUTF8))
      (hfailed : ∀ f, j.fateIn d root = .error f →
        d'.get? (j.spot root) = d.get? (j.spot root)) :
      Standing j d root d' (.finished (j.fateIn d root))

/-- Changes elsewhere do not matter to a stub. -/
theorem Standing.frame (h : Standing j d root d' stage) (hk : Keeps d' d'')
    (hspot : d''.get? (j.spot root) = d'.get? (j.spot root)) : Standing j d root d'' stage := by
  cases h with
  | waiting hs => exact .waiting (hspot.trans hs)
  | housed hhouse hdir hs => exact .housed hhouse (hk.directory hdir) (hspot.trans hs)
  | opened hhouse hdir hfate hs => exact .opened hhouse (hk.directory hdir) hfate (hspot.trans hs)
  | finished hhouse hwritten hfailed =>
    refine .finished (fun hh => hk.directory (hhouse hh)) (fun w hw => ?_) (fun f hf => ?_)
    · rw [hspot, hwritten w hw]
    · rw [hspot, hfailed f hf]

/-- The house is as it was, or has become a directory because it could. -/
def HouseKept (j : Job) (d : Disk) (root : Location) (d' : Disk) : Prop :=
  d'.get? (j.house root) = d.get? (j.house root) ∨
    (j.Housable d root ∧ d'.get? (j.house root) = some .directory)

/-- The tree after a step differs from the one before in the places of the stub only. -/
structure Touches (j : Job) (d : Disk) (root : Location) (before after : Disk) : Prop where
  keeps : Keeps before after
  sound : before.Sound → after.Sound
  house : after.get? (j.house root) = before.get? (j.house root) ∨
    (j.Housable d root ∧ after.get? (j.house root) = some .directory)
  elsewhere : ∀ l, l ≠ j.house root → l ≠ j.spot root → after.get? l = before.get? l

theorem Touches.refl (j : Job) (d : Disk) (root : Location) (d' : Disk) : Touches j d root d' d' :=
  ⟨Keeps.refl d', id, Or.inl rfl, fun _ _ _ => rfl⟩

theorem house_ne_nil (j : Job) (root : Location) : j.house root ≠ [] := by simp [house]

theorem spot_ne_nil (j : Job) (root : Location) : j.spot root ≠ [] := by simp [spot]

theorem spot_ne_house (j k : Job) (root : Location) : j.spot root ≠ k.house root :=
  Disk.grandchild_ne_child root j.ns j.fileName k.ns

theorem housable_of_kept (h : j.HouseKept d root d') :
    housing j.housePath j.ns (d'.get? (j.house root)) =
      housing j.housePath j.ns (d.get? (j.house root)) := by
  rcases h with h | ⟨hhouse, hdir⟩
  · rw [h]
  · have hok := Files.housing_eq_ok.mp hhouse
    rw [hhouse, hdir]
    exact Files.housing_eq_ok.mpr ⟨hok.1, hok.2.1, Or.inr rfl⟩

theorem unlinked_of_kept (hu : Unlinked d (j.house root)) (h : j.HouseKept d root d') :
    Unlinked d' (j.house root) := by
  rcases h with h | ⟨-, hdir⟩
  · intro target ht
    exact hu target (h ▸ ht)
  · exact Disk.unlinked_of_directory hdir

theorem touches_put_house (hj : j.Proper) (hl : Leads d' j.root root) (hhouse : j.Housable d root)
    (hu : Unlinked d' (j.house root)) :
    Touches j d root d' (d'.put (j.house root) .directory) := by
  have hne := j.house_ne_nil root
  obtain ⟨hcheck, hlen, -⟩ := Files.housing_eq_ok.mp hhouse
  have hnull : '\x00' ∉ j.ns.toList := Disk.noNull_of_moves hcheck (by
    simp [housePath, Path.moves_join _ hj.isEntryName_ns])
  refine ⟨(Keeps.refl d').put hne hu fun _ => rfl, fun hd => ?_, Or.inr ⟨hhouse, ?_⟩,
    fun l hl _ => ?_⟩
  · exact hd.put hl.directory ⟨hj.isEntryName_ns, hlen, hnull⟩ fun _ => rfl
  · rw [Disk.get?_put _ _ _ _ hne, if_pos rfl]
  · rw [Disk.get?_put _ _ _ _ hne, if_neg hl]

theorem touches_put_spot {content : ByteArray} (hj : j.Proper)
    (hdir : d'.get? (j.house root) = some .directory) {here : Option Entry}
    (hopen : opening j.spotPath j.fileName here = .ok ()) (hu : Unlinked d' (j.spot root))
    (hfree : d'.get? (j.spot root) ≠ some .directory) :
    Touches j d root d' (d'.put (j.spot root) (.file content)) := by
  have hne := j.spot_ne_nil root
  obtain ⟨hcheck, hlen, -⟩ := Files.opening_eq_ok.mp hopen
  have hnull : '\x00' ∉ j.fileName.toList := Disk.noNull_of_moves hcheck (by
    simp [spotPath, Path.moves_join _ hj.isEntryName_fileName])
  refine ⟨(Keeps.refl d').put hne hu fun h => absurd h hfree, fun hd => ?_, Or.inl ?_,
    fun l _ hl => ?_⟩
  · exact hd.put hdir ⟨hj.isEntryName_fileName, hlen, hnull⟩ fun h => absurd h hfree
  · rw [Disk.get?_put _ _ _ _ hne, if_neg (j.spot_ne_house j root).symm]
  · rw [Disk.get?_put _ _ _ _ hne, if_neg hl]

theorem get?_spot_put_house (e : Entry) :
    (d'.put (j.house root) e).get? (j.spot root) = d'.get? (j.spot root) := by
  rw [Disk.get?_put _ _ _ _ (j.house_ne_nil root), if_neg (j.spot_ne_house j root)]

theorem get?_house_put_spot (e : Entry) :
    (d'.put (j.spot root) e).get? (j.house root) = d'.get? (j.house root) := by
  rw [Disk.get?_put _ _ _ _ (j.spot_ne_nil root), if_neg (j.spot_ne_house j root).symm]

theorem get?_spot_put_spot (e : Entry) :
    (d'.put (j.spot root) e).get? (j.spot root) = some e := by
  rw [Disk.get?_put _ _ _ _ (j.spot_ne_nil root), if_pos rfl]

/-- The next step of a stub that stands well leaves it standing well, and touches nothing but the
stub's own places. -/
theorem Standing.step (hj : j.Proper) (hl : Leads d' j.root root)
    (hhouse : Unlinked d (j.house root)) (hspot : Unlinked d (j.spot root))
    (hkept : j.HouseKept d root d') (h : Standing j d root d' stage) :
    Standing j d root (j.step d' stage).2 (j.step d' stage).1 ∧
      Touches j d root d' (j.step d' stage).2 := by
  cases h with
  | waiting hs =>
    have hu := unlinked_of_kept hhouse hkept
    rw [step_waiting hj hl hu, housable_of_kept hkept]
    cases hv : housing j.housePath j.ns (d.get? (j.house root)) with
    | ok _ =>
      refine ⟨.housed hv ?_ ?_, touches_put_house hj hl hv hu⟩
      · rw [Disk.get?_put _ _ _ _ (j.house_ne_nil root), if_pos rfl]
      · rw [get?_spot_put_house, hs]
    | error e =>
      have hfate : j.fateIn d root =
          .error ⟨["Failed to create directory " ++ j.housePath.text], .system e⟩ := by
        rw [fateIn, fate, hv]
      simp only [← hfate]
      refine ⟨.finished (fun hh => ?_) (fun w hw => ?_) fun _ _ => hs, Touches.refl ..⟩
      · rw [Housable, hv] at hh
        cases hh
      · rw [hfate] at hw
        cases hw
  | housed hh hdir hs =>
    have hu : Unlinked d' (j.spot root) := fun target ht => hspot target (hs ▸ ht)
    have hhouse' : housing j.housePath j.ns (d'.get? (j.house root)) = .ok () :=
      (housable_of_kept hkept).trans hh
    rw [step_housed hj hl hhouse' hdir hu, hs]
    cases hv : opening j.spotPath j.fileName (d.get? (j.spot root)) with
    | ok _ =>
      have hfree : d'.get? (j.spot root) ≠ some .directory :=
        hs ▸ (Files.opening_eq_ok.mp hv).2.2
      have hfate : j.fateIn d root = .ok (j.written j.spotPath) := fate_eq_ok_iff.mpr ⟨hh, hv, rfl⟩
      refine ⟨.opened hh ?_ hfate (get?_spot_put_spot _), touches_put_spot hj hdir hv hu hfree⟩
      rw [get?_house_put_spot, hdir]
    | error e =>
      have hfate : j.fateIn d root =
          .error ⟨["Failed to create file " ++ j.spotPath.text], .system e⟩ := by
        have hh : housing j.housePath j.ns (d.get? (j.house root)) = .ok () := hh
        rw [fateIn, fate, hh]
        simp only [hv]
      simp only [← hfate]
      refine ⟨.finished (fun _ => hdir) (fun w hw => ?_) fun _ _ => hs, Touches.refl ..⟩
      rw [hfate] at hw
      cases hw
  | opened hh hdir hfate hs =>
    have hu := Disk.unlinked_of_file hs
    have hfree : d'.get? (j.spot root) ≠ some .directory := by rw [hs]; simp
    rw [step_opened hs, ← hfate]
    refine ⟨.finished (fun _ => ?_) (fun _ _ => get?_spot_put_spot _) fun f hf => ?_,
      touches_put_spot hj hdir (fate_eq_ok_iff.mp hfate).2.1 hu hfree⟩
    · rw [get?_house_put_spot, hdir]
    · rw [hfate] at hf
      cases hf
  | finished hh hwritten hfailed =>
    exact ⟨.finished hh hwritten hfailed, Touches.refl ..⟩

end Stub.Job

end StubListing
