import NoticeScan.Proofs.Ways

/-!
# What becomes of marks

A run records the passes of the way that it ends up with, and nothing else, as long as no group
lies in another one, the groups of a sequence are numbered from left to right, and no group is
repeated possessively. Ways that are given up leave marks behind, but only where no mark has been
when they were tried, so those are taken back.
-/

namespace NoticeScan.Regex

/-! ## Setting marks -/

namespace Marks

theorem size_put
    (marks : Marks)
    (border pos : Nat) :
    (marks.put border pos).size = max marks.size (border + 1) := by
  unfold put
  split
  · rw [Array.size_setIfInBounds]
    omega
  · rw [Array.size_push, Array.size_append, Array.size_replicate]
    omega

theorem getElem?_put_self
    (marks : Marks)
    (border pos : Nat) :
    (marks.put border pos)[border]? = some (some pos) := by
  unfold put
  split
  · rename_i inside
    exact Array.getElem?_setIfInBounds_self_of_lt inside
  · rename_i beyond
    have length : (marks ++ Array.replicate (border - marks.size) none).size = border := by
      rw [Array.size_append, Array.size_replicate]
      omega
    rw [Array.getElem?_push, if_pos length.symm]

theorem getElem?_put_of_lt
    (marks : Marks)
    {border other : Nat}
    (pos : Nat)
    (known : other < marks.size)
    (different : other ≠ border) :
    (marks.put border pos)[other]? = marks[other]? := by
  unfold put
  split
  · exact Array.getElem?_setIfInBounds_ne different.symm
  · have length : (marks ++ Array.replicate (border - marks.size) none).size = border := by
      rw [Array.size_append, Array.size_replicate]
      omega
    rw [Array.getElem?_push, length, if_neg different, Array.getElem?_append_left known]

theorem getD_put_of_ne
    (marks : Marks)
    {border other : Nat}
    (pos : Nat)
    (different : other ≠ border) :
    (marks.put border pos).getD other none = marks.getD other none := by
  rw [Array.getD_eq_getD_getElem?, Array.getD_eq_getD_getElem?]
  unfold put
  split
  · rw [Array.getElem?_setIfInBounds_ne different.symm]
  · have length : (marks ++ Array.replicate (border - marks.size) none).size = border := by
      rw [Array.size_append, Array.size_replicate]
      omega
    rw [Array.getElem?_push, length, if_neg different]
    by_cases known : other < marks.size
    · rw [Array.getElem?_append_left known]
    · rw [Array.getElem?_append_right (Nat.le_of_not_lt known), Array.getElem?_replicate,
        Array.getElem?_eq_none (Nat.le_of_not_lt known)]
      split <;> rfl

theorem getD_put_self
    (marks : Marks)
    (border pos : Nat) :
    (marks.put border pos).getD border none = some pos := by
  rw [Array.getD_eq_getD_getElem?, getElem?_put_self]
  rfl

/-! ## Marks that are kept -/

/-- Every mark before a border that there was is still where it was. -/
def KeepsBelow (bound : Nat) (before after : Marks) : Prop :=
  ∀ border, border < bound → border < before.size → after[border]? = before[border]?

namespace KeepsBelow

theorem refl
    (bound : Nat)
    (marks : Marks) :
    KeepsBelow bound marks marks :=
  fun _ _ _ => rfl

theorem trans
    {bound : Nat}
    {first second third : Marks}
    (sooner : KeepsBelow bound first second)
    (later : KeepsBelow bound second third) :
    KeepsBelow bound first third := by
  intro border below known
  have same := sooner border below known
  have stillKnown : border < second.size := by
    by_contra lost
    rw [Array.getElem?_eq_none (Nat.le_of_not_lt lost),
      Array.getElem?_eq_getElem known] at same
    simp at same
  rw [later border below stillKnown, same]

theorem mono
    {smaller bound : Nat}
    {before after : Marks}
    (kept : KeepsBelow bound before after)
    (le : smaller ≤ bound) :
    KeepsBelow smaller before after :=
  fun border below known => kept border (Nat.lt_of_lt_of_le below le) known

theorem put
    {bound border : Nat}
    (marks : Marks)
    (pos : Nat)
    (le : bound ≤ border) :
    KeepsBelow bound marks (marks.put border pos) := by
  intro other below known
  exact getElem?_put_of_lt marks pos known (by omega)

/-- What has been marked in the meantime is taken back by cutting the marks to their old
number. -/
theorem shrink_eq
    {bound : Nat}
    {before after : Marks}
    (kept : KeepsBelow bound before after)
    (few : before.size ≤ bound) :
    after.shrink before.size = before := by
  have long : before.size ≤ after.size := by
    by_contra short
    have known : after.size < before.size := Nat.lt_of_not_le short
    have same := kept after.size (Nat.lt_of_lt_of_le known few) known
    rw [Array.getElem?_eq_none (Nat.le_refl _), Array.getElem?_eq_getElem known] at same
    simp at same
  apply Array.ext
  · rw [Array.size_shrink]
    omega
  · intro border shrunk known
    have same := kept border (Nat.lt_of_lt_of_le known few) known
    rw [Array.getElem?_eq_getElem known,
      Array.getElem?_eq_getElem (Nat.lt_of_lt_of_le known long)] at same
    rw [Array.getElem_shrink]
    exact Option.some.inj same

end KeepsBelow

/-! ## Recording passes -/

/-- Marks with a pass added. -/
def pass (marks : Marks) (pass : Pass) : Marks :=
  (marks.put (startBorder pass.group) pass.start).put (startBorder pass.group + 1) pass.stop

/-- Marks with passes added one by one. -/
def record (marks : Marks) (passes : List Pass) : Marks :=
  passes.foldl Marks.pass marks

@[simp]
theorem record_nil
    (marks : Marks) :
    marks.record [] = marks :=
  rfl

theorem record_append
    (marks : Marks)
    (before after : List Pass) :
    marks.record (before ++ after) = (marks.record before).record after :=
  List.foldl_append

theorem record_single
    (marks : Marks)
    (single : Pass) :
    marks.record [single] = marks.pass single :=
  rfl

/-- Every pass is one of a group whose borders lie in a range. -/
def Between (low high : Nat) (passes : List Pass) : Prop :=
  ∀ pass ∈ passes,
    0 < pass.group ∧ low ≤ startBorder pass.group ∧ startBorder pass.group + 2 ≤ high

theorem Between.append
    {low high : Nat}
    {before after : List Pass}
    (first : Between low high before)
    (second : Between low high after) :
    Between low high (before ++ after) := by
  intro pass member
  rcases List.mem_append.mp member with early | late
  · exact first pass early
  · exact second pass late

theorem Between.mono
    {low high lower higher : Nat}
    {passes : List Pass}
    (inside : Between low high passes)
    (below : lower ≤ low)
    (above : high ≤ higher) :
    Between lower higher passes := by
  intro pass member
  have borders := inside pass member
  exact ⟨borders.1, Nat.le_trans below borders.2.1, Nat.le_trans borders.2.2 above⟩

/-- There is no room for a group between a border and itself. -/
theorem Between.eq_nil
    {low : Nat}
    {passes : List Pass}
    (inside : Between low low passes) :
    passes = [] := by
  apply List.eq_nil_iff_forall_not_mem.mpr
  intro pass member
  have borders := inside pass member
  omega

theorem between_nil
    (low high : Nat) :
    Between low high [] :=
  fun _ member => absurd member List.not_mem_nil

theorem size_record_le
    {marks : Marks}
    {passes : List Pass}
    {low high : Nat}
    (few : marks.size ≤ high)
    (inside : Between low high passes) :
    (marks.record passes).size ≤ high := by
  induction passes generalizing marks with
  | nil => exact few
  | cons first rest inductionHypothesis =>
      apply inductionHypothesis
      · have borders := inside first (List.mem_cons_self ..)
        rw [pass, size_put, size_put]
        omega
      · exact fun other member => inside other (List.mem_cons_of_mem _ member)

theorem borders?_pass_self
    (marks : Marks)
    (single : Pass) :
    (marks.pass single).borders? single.group = some (single.start, single.stop) := by
  unfold borders? pass
  rw [getD_put_of_ne _ _ (Nat.ne_of_lt (Nat.lt_succ_self _)), getD_put_self, getD_put_self]

theorem borders?_pass_of_ne
    (marks : Marks)
    {single : Pass}
    {index : Nat}
    (positive : 0 < index)
    (numbered : 0 < single.group)
    (different : single.group ≠ index) :
    (marks.pass single).borders? index = marks.borders? index := by
  have apart : startBorder index ≠ startBorder single.group ∧
      startBorder index ≠ startBorder single.group + 1 ∧
      startBorder index + 1 ≠ startBorder single.group ∧
      startBorder index + 1 ≠ startBorder single.group + 1 := by
    unfold startBorder
    omega
  unfold borders? pass
  rw [getD_put_of_ne _ _ apart.2.1, getD_put_of_ne _ _ apart.1,
    getD_put_of_ne _ _ apart.2.2.2, getD_put_of_ne _ _ apart.2.2.1]

/-- What a group has captured is what it captured when it was passed last. -/
theorem borders?_record
    {passes : List Pass}
    {low high : Nat}
    (inside : Between low high passes)
    {index : Nat}
    (positive : 0 < index) :
    (record #[] passes).borders? index =
      ((passes.filter fun pass => pass.group = index).getLast?).map
        fun pass => (pass.start, pass.stop) := by
  induction passes using List.reverseRecOn with
  | nil => rfl
  | append_singleton before last inductionHypothesis =>
      have numbered := (inside last (by simp)).1
      have earlier := inductionHypothesis
        fun pass member => inside pass (List.mem_append_left _ member)
      rw [record_append, record_single, List.filter_append]
      by_cases same : last.group = index
      · subst same
        rw [borders?_pass_self]
        simp
      · rw [borders?_pass_of_ne _ positive numbered same, earlier]
        simp [same]

end Marks

end NoticeScan.Regex
