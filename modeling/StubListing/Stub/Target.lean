import StubListing.Failure
/-!
# Where a stub goes

The stub of a class lies in the directory of its namespace, below the output root. Namespace and
class must be able to name a directory and a file.
-/
namespace StubListing.Stub

/-- The path of a class's stub. -/
def target (root : Path) (ns className extension : String) : Except Failure Path :=
  if !Path.isFileName ns then
    .error (.said ("Namespace '" ++ ns ++ "' is not a valid directory name"))
  else if !Path.isFileName className then
    .error (.said ("Class name '" ++ className ++ "' is not a valid file name"))
  else .ok ((root.join ns).join (className ++ "." ++ extension))

theorem target_eq_ok {root : Path} {ns className extension : String}
    (hn : Path.isFileName ns = true) (hc : Path.isFileName className = true) :
    target root ns className extension =
      .ok ((root.join ns).join (className ++ "." ++ extension)) := by
  simp [target, hn, hc]

/-- There is a path exactly if both names are good, and then it is made of them. -/
theorem target_eq_ok_iff {root p : Path} {ns className extension : String} :
    target root ns className extension = .ok p ↔
      Path.isFileName ns = true ∧ Path.isFileName className = true ∧
        p = (root.join ns).join (className ++ "." ++ extension) := by
  unfold target
  cases Path.isFileName ns with
  | false => simp
  | true =>
    cases Path.isFileName className with
    | false => simp
    | true => simp [eq_comm]

/-- What is wrong with the names is told in words of its own. -/
theorem target_eq_error {root : Path} {ns className extension : String} {f : Failure}
    (h : target root ns className extension = .error f) : ∃ text, f = .said text := by
  unfold target at h
  split at h
  · exact ⟨_, (Except.error.inj h).symm⟩
  · split at h
    · exact ⟨_, (Except.error.inj h).symm⟩
    · cases h

end StubListing.Stub
