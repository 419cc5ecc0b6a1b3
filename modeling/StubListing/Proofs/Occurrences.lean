import Mathlib.Data.List.Induction
import Mathlib.Data.List.Nodup
/-!
# First occurrences

A list that is freed of repetitions keeps each entry where it first occurs. Entries may as well be taken
one by one from the front, where an entry that is there already is passed over.
-/
namespace StubListing

variable {α : Type} [BEq α] [LawfulBEq α] {entries : List α}

/-- One more entry is kept exactly if it is new. -/
theorem eraseDups_concat (front : List α) (a : α) :
    (front ++ [a]).eraseDups =
      if a ∈ front then front.eraseDups else front.eraseDups ++ [a] := by
  rw [List.eraseDups_append]
  by_cases hm : a ∈ front
  · simp [List.removeAll, hm]
  · simp [List.removeAll, hm, List.eraseDups_cons]

/-- What is left stands in the order of the first occurrences. -/
theorem pairwise_eraseDups (entries : List α) :
    entries.eraseDups.Pairwise fun a b => entries.idxOf a < entries.idxOf b := by
  induction entries using List.reverseRecOn with
  | nil => exact .nil
  | append_singleton front last ih =>
    have hfront : front.eraseDups.Pairwise fun a b =>
        (front ++ [last]).idxOf a < (front ++ [last]).idxOf b := by
      refine ih.imp_of_mem fun ha hb hlt => ?_
      rwa [List.idxOf_append_of_mem (List.mem_eraseDups.mp ha),
        List.idxOf_append_of_mem (List.mem_eraseDups.mp hb)]
    rw [eraseDups_concat]
    split
    · exact hfront
    · rename_i hnew
      refine List.pairwise_append.mpr ⟨hfront, List.pairwise_singleton _ _, fun a ha b hb => ?_⟩
      obtain rfl := List.mem_singleton.mp hb
      have ha := List.mem_eraseDups.mp ha
      rw [List.idxOf_append_of_mem ha, List.idxOf_append_of_notMem hnew]
      exact Nat.lt_of_lt_of_le (List.idxOf_lt_length_of_mem ha) (Nat.le_add_right _ _)

theorem nodup_eraseDups (entries : List α) : entries.eraseDups.Nodup := by
  refine (pairwise_eraseDups entries).imp fun {a b} hlt => ?_
  rintro rfl
  exact Nat.lt_irrefl _ hlt

theorem eraseDups_of_nodup (h : entries.Nodup) : entries.eraseDups = entries := by
  induction entries with
  | nil => rfl
  | cons a rest ih =>
    obtain ⟨hnew, hrest⟩ := List.nodup_cons.mp h
    have hkept : rest.filter (fun other => !other == a) = rest := by
      refine List.filter_eq_self.mpr fun other ho => ?_
      have : other ≠ a := fun e => hnew (e ▸ ho)
      simpa using this
    rw [List.eraseDups_cons, hkept, ih hrest]

end StubListing
