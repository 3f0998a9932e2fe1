import Mathlib
import NoticeScan.CommandLine.Host

/-!
# Files that have been saved

Saving a file changes a tree at one place, which no walk has led through. So every walk leads where
it has led before, and the path of the file leads to what has been saved.
-/

namespace NoticeScan.Files

/-- Whether the parts of a path lead from a folder that lies so deep in the tree to a place in the
tree, without a way round outside. -/
def staysBelow : (depth : Nat) → List (List Char) → Bool
  | _, [] => true
  | depth, part :: rest =>
      if part = upward then
        match depth with
        | 0 => false
        | above + 1 => staysBelow above rest
      else staysBelow (depth + 1) rest

/-- Whether a path leads to a place in the tree in which it starts. -/
def staysInside (path : Path) : Bool :=
  path.root.isEmpty && staysBelow 0 path.parts

namespace Tree

variable {tree grown : Tree} {place last : Place} {part : List Char} {parts : List (List Char)}

/-! ## What stands where after a file has been put somewhere -/

theorem entry?_put_self
    (some : parts ≠ [])
    (bytes : List UInt8) :
    Tree.entry? (tree.put parts bytes) parts = .some (.file bytes) := by
  have notHere : (tree.entries.filter fun entry => entry.1 != parts).lookup parts = none := by
    rw [List.lookup_eq_none_iff]
    intro entry member
    have other := (List.mem_filter.mp member).2
    exact bne_iff_ne.mpr (Ne.symm (bne_iff_ne.mp other))
  unfold entry? put
  rw [if_neg (by simpa using some), List.lookup_append, notHere, Option.none_or]
  simp [List.lookup]

theorem entry?_put_of_ne
    {other : List (List Char)}
    (different : other ≠ parts)
    (bytes : List UInt8) :
    Tree.entry? (tree.put parts bytes) other = tree.entry? other := by
  have apart : (other == parts) = false := beq_eq_false_iff_ne.mpr different
  have kept : ∀ entries : List (List (List Char) × Entry),
      (entries.filter fun entry => entry.1 != parts).lookup other = entries.lookup other := by
    intro entries
    induction entries with
    | nil => rfl
    | cons entry rest inductionHypothesis =>
        obtain ⟨there, what⟩ := entry
        by_cases same : there = parts
        · subst same
          rw [List.filter_cons_of_neg (by simp), inductionHypothesis]
          simp [List.lookup, apart]
        · rw [List.filter_cons_of_pos (by simpa using same)]
          simp only [List.lookup, inductionHypothesis]
  unfold entry? put
  split
  · rfl
  · rw [List.lookup_append, kept]
    simp [List.lookup, apart]

/-! ## Walks in a tree that has grown -/

/-- A tree has grown: where a folder or anything stands, one still stands. -/
structure Grows (tree grown : Tree) : Prop where
  folder : ∀ parts, tree.entry? parts = some .folder → grown.entry? parts = some .folder
  some : ∀ parts, (tree.entry? parts).isSome = true → (grown.entry? parts).isSome = true

theorem grows_put
    (noFolder : tree.entry? parts ≠ some .folder)
    (bytes : List UInt8) :
    Grows tree (tree.put parts bytes) := by
  have named : parts ≠ [] := by
    rintro rfl
    exact noFolder rfl
  constructor
  · intro other folder
    have different : other ≠ parts := by
      rintro rfl
      exact noFolder folder
    rw [entry?_put_of_ne different]
    exact folder
  · intro other stands
    by_cases same : other = parts
    · rw [same, entry?_put_self named]
      rfl
    · rw [entry?_put_of_ne same]
      exact stands

theorem Grows.enter
    (grows : Grows tree grown)
    (entered : tree.enter place part = .ok last) :
    grown.enter place part = .ok last := by
  cases place with
  | outside => exact entered
  | inside parts =>
      unfold Tree.enter at entered ⊢
      dsimp only at entered ⊢
      split at entered
      · cases entered
      · rename_i folder
        rw [if_neg (not_not_intro (grows.folder parts (not_not.mp folder)))]
        split at entered
        · rename_i up
          rw [if_pos up]
          exact entered
        · rename_i down
          rw [if_neg down]
          split at entered
          · cases entered
          · rename_i short
            rw [if_neg short]
            split at entered
            · rename_i stands
              rw [if_pos (grows.some _ stands)]
              exact entered
            · cases entered

theorem Grows.walk
    (grows : Grows tree grown)
    (walked : parts.foldlM tree.enter place = .ok last) :
    parts.foldlM grown.enter place = .ok last := by
  induction parts generalizing place with
  | nil => exact walked
  | cons part rest inductionHypothesis =>
      rw [List.foldlM_cons] at walked ⊢
      cases entered : tree.enter place part with
      | error error =>
          rw [entered] at walked
          cases walked
      | ok next =>
          rw [entered] at walked
          rw [grows.enter entered]
          exact inductionHypothesis walked

/-- A walk that is not to leave the tree ends in it. -/
theorem inside_of_staysBelow
    {start : List (List Char)}
    (stays : staysBelow start.length parts = true)
    (walked : parts.foldlM tree.enter (.inside start) = .ok last) :
    ∃ reached, last = .inside reached := by
  induction parts generalizing start with
  | nil =>
      cases walked
      exact ⟨start, rfl⟩
  | cons part rest inductionHypothesis =>
      rw [List.foldlM_cons] at walked
      cases entered : tree.enter (.inside start) part with
      | error error =>
          rw [entered] at walked
          cases walked
      | ok next =>
          rw [entered] at walked
          unfold staysBelow at stays
          unfold enter at entered
          dsimp only at entered
          split at entered
          · cases entered
          · split at entered
            · rename_i up
              rw [if_pos up] at stays
              cases start using List.reverseRecOn with
              | nil => cases stays
              | append_singleton above name =>
                  rw [List.length_append] at stays
                  simp only [List.isEmpty_iff, List.append_eq_nil_iff, List.cons_ne_nil, and_false,
                    if_false, List.dropLast_concat, Except.ok.injEq] at entered
                  subst entered
                  exact inductionHypothesis stays walked
            · rename_i down
              rw [if_neg down] at stays
              split at entered
              · cases entered
              · split at entered
                · cases entered
                  refine inductionHypothesis ?_ walked
                  rw [List.length_append]
                  exact stays
                · cases entered

/-! ## Reading what has been written -/

theorem staysBelow_dropLast
    {depth : Nat}
    (stays : staysBelow depth parts = true) :
    staysBelow depth parts.dropLast = true := by
  induction parts generalizing depth with
  | nil => rfl
  | cons part rest inductionHypothesis =>
      cases rest with
      | nil => rfl
      | cons next more =>
          rw [List.dropLast_cons_of_ne_nil (List.cons_ne_nil next more)]
          unfold staysBelow at stays ⊢
          split at stays
          · rename_i up
            rw [if_pos up]
            cases depth with
            | zero => cases stays
            | succ above => exact inductionHypothesis stays
          · rename_i down
            rw [if_neg down]
            exact inductionHypothesis stays

theorem lastName?_eq_some
    {path : Path}
    {name : List Char}
    (named : lastName? path = some name) :
    path.parts = path.parts.dropLast ++ [name] ∧ name ≠ upward := by
  unfold lastName? at named
  split at named
  · rename_i other ends
    split at named
    · cases named
    · rename_i down
      cases named
      exact ⟨(List.dropLast_append_getLast? _ ends).symm, down⟩
  · cases named

/-- A walk along a path. -/
theorem walk_eq_ok
    {path : Path} :
    tree.walk path = .ok last ↔ byteLength path.text < pathLimit ∧
      path.parts.foldlM tree.enter (if path.root.isEmpty then .inside [] else .outside) =
        .ok last := by
  unfold walk
  split
  · rename_i long
    simp [Nat.not_lt.mpr long]
  · rename_i short
    simp [Nat.lt_of_not_le short]

/-- The place in a folder where a path that stays in the tree allows something to be made. -/
theorem site_inside
    {path : Path}
    {name : List Char}
    (stays : staysInside path = true)
    (free : tree.site path name = .ok place) :
    byteLength path.text < pathLimit ∧ ∃ above,
      path.parts.dropLast.foldlM tree.enter (.inside []) = .ok (.inside above) ∧
        tree.entry? above = some .folder ∧ byteLength name ≤ nameLimit ∧
        place = .inside (above ++ [name]) := by
  obtain ⟨relative, below⟩ := Bool.and_eq_true_iff.mp stays
  have parentBelow : staysBelow (List.length ([] : List (List Char))) path.parts.dropLast = true :=
    staysBelow_dropLast below
  have led : ∀ {led : Place}, tree.walk path.parent = .ok led →
      path.parts.dropLast.foldlM tree.enter (.inside []) = .ok led := by
    intro led walked
    have parent := (walk_eq_ok.mp walked).2
    have root : path.parent.root.isEmpty = true := relative
    rw [if_pos root] at parent
    exact parent
  unfold site at free
  split at free
  · cases free
  · rename_i short
    split at free
    · cases free
    · rename_i walked
      obtain ⟨reached, same⟩ := inside_of_staysBelow parentBelow (led walked)
      cases same
    · rename_i above walked
      split at free
      · cases free
      · rename_i folder
        split at free
        · cases free
        · rename_i brief
          cases free
          exact ⟨Nat.lt_of_not_le short, above, led walked, not_not.mp folder,
            Nat.le_of_not_lt brief, rfl⟩

/-- A file that has been written in the tree is read as it has been written. -/
theorem read_write
    {path : Path}
    {bytes : List UInt8}
    (written : tree.write path bytes = .ok grown)
    (stays : staysInside path = true) :
    grown.read path = .ok bytes := by
  have relative := (Bool.and_eq_true_iff.mp stays).1
  unfold write at written
  cases named : lastName? path with
  | none =>
      simp only [named] at written
      cases walked : tree.walk path <;> simp [walked, Except.bind] at written
  | some name =>
      obtain ⟨parts, down⟩ := lastName?_eq_some named
      simp only [named] at written
      cases free : tree.site path name with
      | error error => simp [free] at written
      | ok place =>
          obtain ⟨short, above, walked, folder, brief, rfl⟩ := site_inside stays free
          simp only [free] at written
          split at written
          · cases written
          · rename_i noFolder
            cases written
            have grows : Grows tree (tree.put (above ++ [name]) bytes) := grows_put noFolder bytes
            have some : above ++ [name] ≠ [] := by simp
            have here : Tree.entry? (tree.put (above ++ [name]) bytes) (above ++ [name]) =
                .some (.file bytes) :=
              entry?_put_self some bytes
            have entered : (tree.put (above ++ [name]) bytes).enter (.inside above) name =
                .ok (.inside (above ++ [name])) := by
              unfold enter
              dsimp only
              rw [if_neg (not_not_intro (grows.folder above folder)), if_neg down,
                if_neg (Nat.not_lt.mpr brief), here]
              rfl
            have whole : (tree.put (above ++ [name]) bytes).walk path =
                .ok (.inside (above ++ [name])) := by
              rw [walk_eq_ok, if_pos relative, parts, List.foldlM_append, grows.walk walked]
              exact ⟨short, by simp [bind, Except.bind, entered, pure, Except.pure]⟩
            unfold read
            rw [whole]
            dsimp only
            rw [here]

/-- A file that has been saved in the tree is read as it has been saved. -/
theorem read_save
    {path : Path}
    {bytes : List UInt8}
    (saved : tree.save path bytes = .ok grown)
    (stays : staysInside path = true) :
    grown.read path = .ok bytes := by
  unfold save at saved
  split at saved
  · cases saved
  · exact read_write saved stays

end Tree

end NoticeScan.Files
