import Mathlib
import NoticeScan.Text.Blank
import NoticeScan.Text.Case

/-!
# Letters beyond the basic plane

Whatever has a letter beyond the basic plane as its lower-case form is kin of it.
-/

namespace NoticeScan.Text

/-- A lower-case form beyond the basic plane does not lie in any run itself. -/
theorem caseRuns_apart :
    (caseRuns.toList.all fun run =>
      decide (run.target + (run.last - run.first) ≤ 0xFFFF) ||
        caseRuns.toList.all fun other =>
          decide (other.last < run.target) ||
            decide (run.target + (run.last - run.first) < other.first)) = true := by
  decide +kernel

theorem lower_cases
    (x : Nat) :
    lower x = x ∨
      ∃ run ∈ caseRuns.toList, run.holds x = true ∧ lower x = run.target + (x - run.first) := by
  unfold lower
  split
  · rename_i small
    split
    · rename_i capital
      refine Or.inr ⟨⟨65, 90, 1, 97⟩, ?_, ?_, ?_⟩
      · exact List.mem_of_getElem? (i := 0) rfl
      · simp only [CaseRun.holds, Bool.and_eq_true, decide_eq_true_eq] at capital ⊢
        refine ⟨⟨by omega, by omega⟩, ?_⟩
        simp [Nat.mod_one]
      · simp only [Bool.and_eq_true, decide_eq_true_eq] at capital
        dsimp only
        omega
    · exact Or.inl rfl
  · split
    · rename_i run found
      split
      · rename_i holds
        have member : run ∈ caseRuns.toList :=
          Array.mem_toList_iff.mpr (Array.mem_of_getElem? found)
        exact Or.inr ⟨run, member, holds, rfl⟩
      · exact Or.inl rfl
    · exact Or.inl rfl

theorem mem_twins
    (y : Nat) :
    y ∈ twins y := by
  unfold twins
  cases found : caseTwins.find? (·.contains y) with
  | none => simp
  | some group =>
      have holds := List.find?_some found
      simpa using holds

/-- A code point is its lower-case form or is found among what that is raised to. -/
theorem mem_cons_raised
    (c : Nat) :
    c ∈ lower c :: raised (lower c) := by
  rcases lower_cases c with same | ⟨run, member, holds, target⟩
  · rw [same]
    exact List.mem_cons_self
  · refine List.mem_cons_of_mem _ ?_
    unfold raised
    rw [List.mem_filterMap]
    refine ⟨run, member, ?_⟩
    have bounds := holds
    simp only [CaseRun.holds, Bool.and_eq_true, decide_eq_true_eq] at bounds
    have back : run.first + (lower c - run.target) = c := by omega
    dsimp only
    rw [back, holds, if_pos]
    simp
    omega

theorem mem_kinOf
    {c x : Nat}
    (twin : lower c ∈ twins (lower x)) :
    c ∈ kinOf x :=
  List.mem_flatMap.mpr ⟨lower c, twin, mem_cons_raised c⟩

theorem mem_kin_of_lower
    {c x : Nat}
    (far : 0xFFFF < x)
    (lowered : lower c = x) :
    c ∈ kin x := by
  have big : ¬ x < 128 := by omega
  have fixed : lower x = x := by
    rcases lower_cases c with same | ⟨run, member, holds, target⟩
    · have equal : c = x := same.symm.trans lowered
      rw [← equal]
      exact same
    · rcases lower_cases x with same | ⟨other, member', holds', _⟩
      · exact same
      · exfalso
        have apart := List.all_eq_true.mp caseRuns_apart run member
        simp only [CaseRun.holds, Bool.and_eq_true, decide_eq_true_eq, Bool.or_eq_true,
          List.all_eq_true] at apart holds holds'
        rcases apart with near | apart
        · omega
        · have away := apart other member'
          omega
  unfold kin
  rw [if_neg big]
  refine mem_kinOf ?_
  rw [lowered, fixed]
  exact mem_twins x

/-- What the letters that are kept apart from the tables are kin of is read off the tables just
as well. -/
theorem mem_kin_iff
    {c x : Nat}
    (small : x < 128) :
    c ∈ kin x ↔ lower c ∈ twins (lower x) := by
  have listed : ∀ y < 128, ∀ d ∈ kin y, lower d ∈ twins (lower y) := by decide +kernel
  have complete : ∀ y < 128, ∀ d ∈ kinOf y, d ∈ kin y := by decide +kernel
  exact ⟨listed x small c, fun twin => complete x small c (mem_kinOf twin)⟩

end NoticeScan.Text
