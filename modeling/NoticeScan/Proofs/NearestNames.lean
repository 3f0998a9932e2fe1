import Mathlib
import NoticeScan.Catalogue.Lookup

/-!
# Nearest names

The distance between two texts is the length of a shortest way from one to the other, one
character being inserted, deleted or replaced at a time. So the names that are suggested for an
unknown one are the names of the catalogue that the fewest edits lead to, if two of them suffice.
-/

namespace NoticeScan.Catalogue

/-! ## Edits -/

/-- One character is inserted, deleted or replaced. -/
inductive Edit : List Char → List Char → Prop
  | insert (front behind : List Char) (c : Char) :
      Edit (front ++ behind) (front ++ c :: behind)
  | delete (front behind : List Char) (c : Char) :
      Edit (front ++ c :: behind) (front ++ behind)
  | replace (front behind : List Char) (c d : Char) :
      Edit (front ++ c :: behind) (front ++ d :: behind)

/-- So many edits, one after another, lead from one text to another. -/
inductive Edits : Nat → List Char → List Char → Prop
  | none (text : List Char) : Edits 0 text text
  | more {count : Nat} {text between last : List Char} :
      Edits count text between → Edit between last → Edits (count + 1) text last

section Edits

variable {count : Nat} {text other last : List Char}

theorem Edit.reverse
    (edit : Edit text other) :
    Edit text.reverse other.reverse := by
  cases edit with
  | insert front behind c => simpa using Edit.insert behind.reverse front.reverse c
  | delete front behind c => simpa using Edit.delete behind.reverse front.reverse c
  | replace front behind c d => simpa using Edit.replace behind.reverse front.reverse c d

theorem Edits.reverse
    (edits : Edits count text other) :
    Edits count text.reverse other.reverse := by
  induction edits with
  | none text => exact .none _
  | more _ edit inductionHypothesis => exact .more inductionHypothesis edit.reverse

theorem edits_reverse_iff :
    Edits count text.reverse other.reverse ↔ Edits count text other := by
  constructor
  · intro edits
    simpa using edits.reverse
  · exact Edits.reverse

theorem Edit.cons
    (c : Char)
    (edit : Edit text other) :
    Edit (c :: text) (c :: other) := by
  cases edit with
  | insert front behind d => exact .insert (c :: front) behind d
  | delete front behind d => exact .delete (c :: front) behind d
  | replace front behind d e => exact .replace (c :: front) behind d e

theorem Edits.cons
    (c : Char)
    (edits : Edits count text other) :
    Edits count (c :: text) (c :: other) := by
  induction edits with
  | none text => exact .none _
  | more _ edit inductionHypothesis => exact .more inductionHypothesis (edit.cons c)

/-- An edit may also be the first one. -/
theorem Edits.before
    (edit : Edit text other)
    (edits : Edits count other last) :
    Edits (count + 1) text last := by
  induction edits with
  | none _ => exact .more (.none _) edit
  | more _ next inductionHypothesis => exact .more (inductionHypothesis edit) next

end Edits

/-! ## The distance by recursion on both texts -/

/-- The distance between two texts, found from their starts. -/
def gap : List Char → List Char → Nat
  | [], other => other.length
  | c :: text, [] => text.length + 1
  | c :: text, d :: other =>
      min (min (gap text (d :: other) + 1) (gap (c :: text) other + 1))
        (if c = d then gap text other else gap text other + 1)
termination_by text other => text.length + other.length

section Gap

variable (c d : Char) (text other : List Char)

@[simp]
theorem gap_nil_left :
    gap [] other = other.length := by
  simp [gap]

@[simp]
theorem gap_nil_right :
    gap text [] = text.length := by
  cases text with
  | nil => simp
  | cons c text => simp [gap]

theorem gap_cons_cons :
    gap (c :: text) (d :: other) =
      min (min (gap text (d :: other) + 1) (gap (c :: text) other + 1))
        (if c = d then gap text other else gap text other + 1) := by
  rw [gap]

theorem gap_insert_le :
    gap text (c :: other) ≤ gap text other + 1 := by
  cases text with
  | nil => simp
  | cons d text =>
      rw [gap_cons_cons]
      omega

theorem gap_cons_le :
    gap (c :: text) other ≤ gap text other + 1 := by
  cases other with
  | nil => simp
  | cons d other =>
      rw [gap_cons_cons]
      omega

theorem gap_delete_le :
    gap text other ≤ gap text (c :: other) + 1 := by
  induction text with
  | nil =>
      simp
      omega
  | cons d text inductionHypothesis =>
      have shorter := gap_cons_le d text other
      rw [gap_cons_cons]
      split
      · omega
      · omega

theorem gap_replace_le :
    gap text (d :: other) ≤ gap text (c :: other) + 1 := by
  induction text with
  | nil => simp
  | cons e text inductionHypothesis =>
      rw [gap_cons_cons e c, gap_cons_cons e d]
      split
      · split
        · omega
        · omega
      · split
        · omega
        · omega

/-- What holds of the distances to two texts holds with one character more in front of both. -/
theorem gap_under_cons_le
    {one other : List Char}
    (near : ∀ text, gap text other ≤ gap text one + 1) :
    gap text (c :: other) ≤ gap text (c :: one) + 1 := by
  induction text with
  | nil => simpa using near []
  | cons d text inductionHypothesis =>
      have longer := near (d :: text)
      have shorter := near text
      rw [gap_cons_cons d c, gap_cons_cons d c]
      split
      · omega
      · omega

/-- One edit changes the distance by one at most. -/
theorem gap_edit_le
    {one other : List Char}
    (edit : Edit one other) :
    gap text other ≤ gap text one + 1 := by
  -- The characters in front of the edit are the same on both sides, so it may stand in front.
  cases edit with
  | insert front behind c =>
      induction front generalizing text with
      | nil => exact gap_insert_le c text behind
      | cons e front inductionHypothesis => exact gap_under_cons_le e text inductionHypothesis
  | delete front behind c =>
      induction front generalizing text with
      | nil => exact gap_delete_le c text behind
      | cons e front inductionHypothesis => exact gap_under_cons_le e text inductionHypothesis
  | replace front behind c d =>
      induction front generalizing text with
      | nil => exact gap_replace_le c d text behind
      | cons e front inductionHypothesis => exact gap_under_cons_le e text inductionHypothesis

theorem gap_self :
    gap text text = 0 := by
  induction text with
  | nil => simp
  | cons c text inductionHypothesis => simp [gap_cons_cons, inductionHypothesis]

end Gap

section Least

variable {count : Nat} {text other : List Char}

/-- No way is shorter than the distance. -/
theorem gap_le_of_edits
    (edits : Edits count text other) :
    gap text other ≤ count := by
  induction edits with
  | none text => simp [gap_self]
  | @more count text between last _ edit inductionHypothesis =>
      have step := gap_edit_le text edit
      omega

theorem edits_from_nil (other : List Char) :
    Edits other.length [] other := by
  induction other with
  | nil => exact .none []
  | cons c other inductionHypothesis => exact .more inductionHypothesis (.insert [] other c)

theorem edits_to_nil (text : List Char) :
    Edits text.length text [] := by
  induction text with
  | nil => exact .none []
  | cons c text inductionHypothesis => exact .before (.delete [] text c) inductionHypothesis

/-- There is a way that is as long as the distance. -/
theorem edits_gap (text other : List Char) :
    Edits (gap text other) text other := by
  fun_induction gap text other with
  | case1 other => exact edits_from_nil other
  | case2 c text => exact edits_to_nil (c :: text)
  | case3 c text d other delete insert replace =>
      rcases min_choice (min (gap text (d :: other) + 1) (gap (c :: text) other + 1))
        (if c = d then gap text other else gap text other + 1) with least | least
      · rw [least]
        rcases min_choice (gap text (d :: other) + 1) (gap (c :: text) other + 1) with
          first | second
        · rw [first]
          exact .before (.delete [] text c) delete
        · rw [second]
          exact .more insert (.insert [] other d)
      · rw [least]
        by_cases same : c = d
        · subst same
          simpa using replace.cons c
        · rw [if_neg same]
          exact .more (replace.cons c) (.replace [] other c d)

theorem gap_least (text other : List Char) :
    IsLeast { count | Edits count text other } (gap text other) :=
  ⟨edits_gap text other, fun _ => gap_le_of_edits⟩

/-! ## The rows of the table -/

/-- The distances from a text to a start of another one and to all longer starts: what has been
read of the other one is `found`, the last character first, and `rest` is still to come. -/
def distances (text : List Char) : (found rest : List Char) → List Nat
  | found, [] => [gap text found]
  | found, d :: rest => gap text found :: distances text (d :: found) rest

theorem firstRow_eq (other : List Char) :
    firstRow other = distances [] [] other := by
  have longer (found rest : List Char) :
      distances [] found rest = List.range' found.length (rest.length + 1) := by
    induction rest generalizing found with
    | nil => simp [distances]
    | cons d rest inductionHypothesis =>
        rw [distances, inductionHypothesis, List.length_cons, List.length_cons,
          List.range'_succ (n := rest.length + 1), gap_nil_left]
  rw [longer, firstRow, List.range_eq_range', List.length_nil]

theorem distances_eq_cons (text found rest : List Char) :
    distances text found rest = gap text found :: (distances text found rest).tail := by
  cases rest with
  | nil => rfl
  | cons d rest => rfl

theorem nextEntries_eq (c : Char) (text found rest : List Char) :
    nextEntries c (gap text found) (gap (c :: text) found) (distances text found rest).tail rest =
      (distances (c :: text) found rest).tail := by
  induction rest generalizing found with
  | nil => simp [distances, nextEntries]
  | cons d rest inductionHypothesis =>
      have here := gap_cons_cons c d text found
      simp only [distances, List.tail_cons]
      rw [distances_eq_cons text, nextEntries, ← here, inductionHypothesis, ← distances_eq_cons]

theorem nextRow_eq (c : Char) (text other : List Char) :
    nextRow c (distances text [] other) other = distances (c :: text) [] other := by
  have first : gap text [] + 1 = gap (c :: text) [] := by simp
  rw [distances_eq_cons text, nextRow, first, nextEntries_eq, ← distances_eq_cons]

theorem foldl_nextRow (text read other : List Char) :
    read.foldl (fun row c => nextRow c row other) (distances text [] other) =
      distances (read.reverse ++ text) [] other := by
  induction read generalizing text with
  | nil => simp
  | cons c read inductionHypothesis => simp [nextRow_eq, inductionHypothesis]

theorem getLastD_distances (text found rest : List Char) (otherwise : Nat) :
    (distances text found rest).getLastD otherwise = gap text (rest.reverse ++ found) := by
  induction rest generalizing found otherwise with
  | nil => simp [distances]
  | cons d rest inductionHypothesis =>
      rw [distances, List.getLastD_cons, inductionHypothesis]
      simp

/-- The table reads both texts from their starts, so its last entry is the distance of the texts
read backwards. -/
theorem editDistance_eq (text other : List Char) :
    editDistance text other = gap text.reverse other.reverse := by
  rw [editDistance, firstRow_eq, foldl_nextRow, getLastD_distances, List.append_nil,
    List.append_nil]

theorem editDistance_least (text other : List Char) :
    IsLeast { count | Edits count text other } (editDistance text other) := by
  have least := gap_least text.reverse other.reverse
  simp only [edits_reverse_iff] at least
  rwa [editDistance_eq]

end Least

/-! ## Names near a name -/

theorem lookup_eq_none_iff {name : String} :
    entries.lookup name = none ↔ name ∉ names := by
  unfold names
  generalize entries = entries
  rw [List.lookup_eq_none_iff, List.mem_map]
  constructor
  · rintro other ⟨entry, member, same⟩
    exact bne_iff_ne.mp (other entry member) same.symm
  · intro missing entry member
    exact bne_iff_ne.mpr fun same => missing ⟨entry, member, same.symm⟩

theorem find_of_notMem
    {name : String}
    (unknown : name ∉ names) :
    find name = .error ⟨name, suggestions name⟩ := by
  rw [find, lookup_eq_none_iff.mpr unknown]

theorem find_eq_error_iff {name : String} :
    (∃ unknown, find name = .error unknown) ↔ name ∉ names := by
  rw [← lookup_eq_none_iff]
  unfold find
  cases entries.lookup name with
  | none => simp
  | some rule => simp

theorem exists_find_of_mem
    {name : String}
    (known : name ∈ names) :
    ∃ rule, find name = .ok rule := by
  cases found : find name with
  | ok rule => exact ⟨rule, rfl⟩
  | error unknown => exact absurd known (find_eq_error_iff.mp ⟨unknown, found⟩)

theorem names_ascending : names.Pairwise (· < ·) := by
  decide +kernel

/-- The nearest distance is the least of all distances to names and the one that is too far. -/
theorem nearestDistance_least (name : String) :
    let all := farDistance :: names.map fun known => editDistance name.toList known.toList
    nearestDistance name ∈ all ∧ ∀ distance ∈ all, nearestDistance name ≤ distance :=
  List.min?_eq_some_iff.mp List.min?_cons'

/-- What is suggested if a name is near: the names at the least distance over the catalogue. -/
theorem suggestions_of_near
    {name : String}
    (near : nearestDistance name < farDistance) :
    IsLeast { count | ∃ known ∈ names, Edits count name.toList known.toList }
        (nearestDistance name) ∧
      ∀ known, known ∈ suggestions name ↔
        known ∈ names ∧ Edits (nearestDistance name) name.toList known.toList := by
  obtain ⟨attained, below⟩ := nearestDistance_least name
  have least {known : String} {count : Nat} (member : known ∈ names)
      (edits : Edits count name.toList known.toList) :
      nearestDistance name ≤ editDistance name.toList known.toList ∧
        editDistance name.toList known.toList ≤ count :=
    ⟨below _ (List.mem_cons_of_mem _ (List.mem_map_of_mem member)),
      (editDistance_least _ _).2 edits⟩
  refine ⟨⟨?_, ?_⟩, ?_⟩
  · rcases List.mem_cons.mp attained with far | found
    · exact absurd far near.ne
    · obtain ⟨known, member, same⟩ := List.mem_map.mp found
      exact ⟨known, member, same ▸ (editDistance_least _ _).1⟩
  · rintro count ⟨known, member, edits⟩
    exact (least member edits).1.trans (least member edits).2
  · intro known
    rw [suggestions]
    simp only [near, if_true, List.mem_filter, beq_iff_eq]
    apply and_congr_right
    intro member
    constructor
    · intro same
      exact same ▸ (editDistance_least _ _).1
    · intro edits
      exact le_antisymm (least member edits).2 (least member edits).1

theorem suggestions_ne_nil_iff {name : String} :
    suggestions name ≠ [] ↔ nearestDistance name < farDistance := by
  constructor
  · intro some
    by_contra far
    simp [suggestions, far] at some
  · intro near
    obtain ⟨⟨⟨known, member, edits⟩, -⟩, all⟩ := suggestions_of_near near
    exact List.ne_nil_of_mem ((all known).mpr ⟨member, edits⟩)

/-- The nearest distance is small exactly if some name is reached by two edits. -/
theorem nearestDistance_lt_iff {name : String} :
    nearestDistance name < farDistance ↔
      ∃ known ∈ names, ∃ count ≤ 2, Edits count name.toList known.toList := by
  constructor
  · intro near
    obtain ⟨⟨⟨known, member, edits⟩, -⟩, -⟩ := suggestions_of_near near
    exact ⟨known, member, _, Nat.le_of_lt_succ near, edits⟩
  · rintro ⟨known, member, count, few, edits⟩
    have below := (nearestDistance_least name).2 _
      (List.mem_cons_of_mem _ (List.mem_map_of_mem member))
    have above := (editDistance_least name.toList known.toList).2 edits
    rw [farDistance]
    omega

/-- A name that is not in the catalogue is answered with the names that the fewest edits lead to,
in ascending order, if two edits lead to some name, and else without any. The distance by which
they are found is the least number of edits. -/
theorem find_nearest
    {name : String}
    (unknown : name ∉ names) :
    (∃ nearest, find name = .error ⟨name, nearest⟩ ∧
      nearest.Pairwise (· < ·) ∧
      (nearest ≠ [] ↔
        ∃ known ∈ names, ∃ count ≤ 2, Edits count name.toList known.toList) ∧
      (nearest ≠ [] → ∃ least,
        IsLeast { count | ∃ known ∈ names, Edits count name.toList known.toList } least ∧
          ∀ known, known ∈ nearest ↔ known ∈ names ∧ Edits least name.toList known.toList)) ∧
      ∀ text other : List Char,
        IsLeast { count | Edits count text other } (editDistance text other) := by
  have ascending : (suggestions name).Pairwise (· < ·) := by
    unfold suggestions
    dsimp only
    split
    · exact names_ascending.filter _
    · exact .nil
  refine ⟨⟨suggestions name, find_of_notMem unknown, ascending, ?_, ?_⟩, editDistance_least⟩
  · rw [suggestions_ne_nil_iff, nearestDistance_lt_iff]
  · intro some
    exact ⟨_, suggestions_of_near (suggestions_ne_nil_iff.mp some)⟩

/-- Three names are one edit away from a name that is not in the catalogue. -/
theorem find_nearest_gpl4 :
    "GPL4" ∉ names ∧
      find "GPL4" = .error ⟨"GPL4", ["GPL", "GPL2", "GPL3"]⟩ ∧
      IsLeast { count | ∃ known ∈ names, Edits count "GPL4".toList known.toList } 1 := by
  have unknown : "GPL4" ∉ names := by decide +kernel
  obtain ⟨⟨nearest, found, -, -, all⟩, distance⟩ := find_nearest unknown
  have listed : nearest = ["GPL", "GPL2", "GPL3"] := by
    have suggested : suggestions "GPL4" = ["GPL", "GPL2", "GPL3"] := by decide +kernel
    simpa [find_of_notMem unknown, suggested] using found.symm
  obtain ⟨least, isLeast, reached⟩ := all (by simp [listed])
  have one : editDistance "GPL4".toList "GPL".toList = 1 := by decide +kernel
  obtain ⟨edits, shortest⟩ := one ▸ distance "GPL4".toList "GPL".toList
  obtain ⟨member, way⟩ := (reached "GPL").mp (by simp [listed])
  have same : least = 1 := le_antisymm (isLeast.2 ⟨"GPL", member, edits⟩) (shortest way)
  exact ⟨unknown, listed ▸ found, same ▸ isLeast⟩

end NoticeScan.Catalogue
