import NoticeScan.Proofs.Alternation
import NoticeScan.Proofs.Composite
import NoticeScan.Proofs.Spelling

/-!
# What is looked for first

A composite expression tries the group of the known licences before everything else, and whatever
it tries takes a character. So if a known licence describes all of a text but no shorter front of
it, the first match is the whole text, and it is the only one.
-/

namespace NoticeScan

open NoticeScan.Regex

namespace Regex

/-! ## Expressions that try a group first -/

/-- An expression tries its first group before anything else, wherever it is looked for. What it
tries besides takes a character. -/
structure Leads (regex : Regex) (body : Node) : Prop where
  opening : regex.opening = none
  node : ∃ rest, regex.node = .alt (.group 1 body) rest ∧
    ∀ text start stop passes, rest.ways text start stop passes → start < text.size

/-- Branches of which the first one is a group lead with that group. -/
theorem Splits.compile_leads
    {flags : Flags}
    {after : List (List Char × Nat)}
    {piece : List Char}
    {items : List Item}
    {others : List (List Item)}
    {low high : Nat}
    {ways : Array Char → Ways}
    (splits : Splits false flags [] after piece ([.captured 1 items] :: others))
    (fine : ∀ item ∈ items, item.late = none)
    (some : others ≠ [])
    (each : ∀ branch ∈ others, Brings flags low high ways branch ∧ Takes branch) :
    ∃ regex, Regex.compile flags piece = .ok regex ∧ regex.Leads (Part.ofItems items).node := by
  have out : ∃ branch ∈ [.captured 1 items] :: others, StandsOut branch :=
    ⟨_, List.mem_cons_self, standsOut_single rfl⟩
  have written : WrittenBranches flags ([.captured 1 items] :: others) :=
    List.forall_mem_cons.mpr
      ⟨List.forall_mem_singleton.mpr nofun, fun branch member => (each branch member).1.written⟩
  have late : ∀ branch ∈ [.captured 1 items] :: others, ∀ item ∈ branch, item.late = none :=
    List.forall_mem_cons.mpr
      ⟨List.forall_mem_singleton.mpr ((late_ofItems items).mpr fine),
        fun branch member => (each branch member).1.late⟩
  obtain ⟨regex, compiled, opening, node⟩ := splits.compile_choice some out written late
  obtain ⟨next, rest, rfl⟩ := List.exists_cons_of_ne_nil some
  refine ⟨regex, compiled, opening, _, node, ?_⟩
  intro text start stop passes way
  obtain ⟨node, member, inside⟩ := ((Node.reads_ways text).choice _ _ _ _).mp way
  obtain ⟨branch, among, rfl⟩ := List.mem_map.mp member
  exact ((each branch among).2 text start stop passes inside).2

/-! ## Matches of the first group -/

section Matches

variable {regex : Regex} {body : Node} {text : Array Char} {language : Language Char}

/-- The first group takes a whole text that its body describes, if it describes no shorter front
of it. -/
theorem Leads.matchFrom
    (leads : regex.Leads body)
    (unconditional : body.unconditional = true)
    (bare : body.bare = true)
    (spells : (body.ways text).Spell text language)
    (word : text.toList ∈ language)
    (shortest : ∀ front ∈ language, front <+: text.toList → front = text.toList)
    (accepts : Nat → Bool)
    (accepted : accepts text.size = true) :
    ∃ found, regex.matchFrom text accepts 0 = some found ∧ found.start = 0 ∧
      found.stop = text.size ∧
      ∀ index, 0 < index →
        found.group? index = if index = 1 then some (0, text.size) else none := by
  obtain ⟨rest, node, -⟩ := leads.node
  let first : Regex := { node := .group 1 body, opening := none, groupCount := 1, names := [] }
  have fits : first.node.Fits 0 2 := ⟨Nat.one_pos, Nat.le_refl _, Nat.le_refl _, bare⟩
  have whole : (text.extract 0 text.size).toList = text.toList := by rw [Array.extract_size]
  -- The group finds something, since the whole text is one of its ways.
  obtain ⟨passes, way⟩ := (spells 0 text.size (Nat.zero_le _)).mpr
    ⟨Nat.zero_le _, Nat.le_refl _, whole.symm ▸ word⟩
  have accepting : Accepts (fun behind : Cursor =>
      if accepts behind.pos then .found behind else .failed behind.marks) text.size :=
    fun marks => ⟨⟨text.size, marks⟩, if_pos accepted⟩
  have ofGroup : first.node.unconditional = true := unconditional
  obtain ⟨last, ran⟩ := Node.run_tries text ofGroup false ⟨passes, way, rfl⟩ accepting #[]
  have is : first.matchFrom text accepts 0 = some (foundFrom 0 last) := by
    rw [Regex.matchFrom, ran]
    rfl
  have tried : regex.matchFrom text accepts 0 = some (foundFrom 0 last) := by
    rw [Regex.matchFrom, node, run_alt_found ran]
    rfl
  generalize foundFrom 0 last = found at is tried
  obtain ⟨start, -, passes, ⟨inner, way, rfl⟩, -, groups⟩ := matchFrom_tells fits is
  rw [start] at way groups
  -- What it finds is no shorter, and it has passed no other group.
  obtain ⟨-, within, front⟩ := (spells 0 found.stop (Nat.zero_le _)).mp ⟨inner, way⟩
  have starts : (text.extract 0 found.stop).toList <+: text.toList := by
    rw [← whole, extract_split (Nat.zero_le found.stop) within]
    exact List.prefix_append _ _
  have all := congrArg List.length (shortest _ front starts)
  rw [length_extract within, Array.length_toList] at all
  have stop : found.stop = text.size := by omega
  have silent : inner = [] := Node.silent_of_bare bare text _ _ _ way
  refine ⟨found, tried, start, stop, fun index positive => ?_⟩
  rw [groups index positive, silent, stop]
  by_cases one : index = 1
  · rw [one]
    rfl
  · rw [if_neg one, List.nil_append, List.filter_cons_of_neg (by simpa using Ne.symm one)]
    rfl

/-- Behind the end of a text nothing is found. -/
theorem Leads.matchAt_size
    (leads : regex.Leads body)
    (spells : (body.ways text).Spell text language)
    (nonempty : [] ∉ language)
    {low high : Nat}
    (fits : regex.node.Fits low high)
    (moving : Bool) :
    regex.matchAt text moving text.size = none := by
  rw [Option.eq_none_iff_forall_ne_some]
  intro found is
  obtain ⟨start, passes, way, -⟩ := matchAt_tells fits is
  obtain ⟨rest, node, takes⟩ := leads.node
  rw [node, start] at way
  rcases way with ⟨inner, way, -⟩ | way
  · obtain ⟨ordered, within, word⟩ := (spells text.size found.stop (Nat.le_refl _)).mp ⟨inner, way⟩
    have stop : found.stop = text.size := Nat.le_antisymm within ordered
    rw [stop, extract_self] at word
    exact nonempty word
  · exact Nat.lt_irrefl _ (takes text _ _ _ way)

/-- A search finds the whole text, and nothing else. -/
theorem Leads.next?
    (leads : regex.Leads body)
    (unconditional : body.unconditional = true)
    (bare : body.bare = true)
    (spells : (body.ways text).Spell text language)
    (word : text.toList ∈ language)
    (shortest : ∀ front ∈ language, front <+: text.toList → front = text.toList)
    (nonempty : [] ∉ language)
    {low high : Nat}
    (fits : regex.node.Fits low high) :
    ∃ found after, regex.next? text {} = some (found, after) ∧ regex.next? text after = none ∧
      found.start = 0 ∧ found.stop = text.size ∧
      ∀ index, 0 < index →
        found.group? index = if index = 1 then some (0, text.size) else none := by
  obtain ⟨found, is, start, stop, groups⟩ :=
    leads.matchFrom unconditional bare spells word shortest (fun stop => !false || stop != 0) rfl
  have here : regex.matchAt text false 0 = some found := by
    rw [matchAt, mayOpen, leads.opening]
    exact is
  let after : Search := { pos := text.size, moving := text.size == found.start }
  have ended := leads.matchAt_size spells nonempty fits after.moving
  refine ⟨found, after, ?_, ?_, start, stop, groups⟩
  · rw [next?_of_matchAt here, stop]
  · rw [Regex.next?, Nat.sub_self, searchFrom, ended]
    rfl

end Matches

end Regex

namespace Scan

open NoticeScan.Pattern

variable {parts : Ingredients}

/-- The known licences are one alternative of their own, which comes first. -/
theorem composite_known
    (some : parts.licenses ≠ []) :
    parts.composite =
      oneOf
        (group (capture .knownLicense 1 (oneOf parts.licenses)) ::
          [group parts.genericLicense, group parts.licenseLabel, group parts.author,
            group parts.copyright, group parts.contract]) := by
  rw [Ingredients.composite, Ingredients.alternatives, List.isEmpty_eq_false_iff.mpr some]
  rfl

/-- The alternative for known licences is their group. -/
theorem splits_known
    {body : Expr}
    {branches : List (List Item)}
    (splits : Splits true Pattern.flags (enlist [] (groupName .knownLicense 1))
      (enlist [] (groupName .knownLicense 1)) body branches) :
    Splits false Pattern.flags [] (enlist [] (groupName .knownLicense 1))
      (group (capture .knownLicense 1 body))
      [[.captured 1 (Regex.alternatives Pattern.flags branches)]] := by
  obtain ⟨spelled, isName⟩ := spelled_of_namesGroup (namesGroup_groupName .knownLicense 1)
  have known : Adds true Pattern.flags [] (enlist [] (groupName .knownLicense 1))
      (capture .knownLicense 1 body)
      [.single (.captured 1 (Regex.alternatives Pattern.flags branches))] := by
    rw [capture_eq]
    exact splits.captured spelled isName rfl
  exact .of_adds (Splits.of_adds known).group

/-- What the known licences find by themselves is what the composite expression finds there. -/
theorem matchAt_composite_known
    (sound : parts.Sound)
    (some : parts.licenses ≠ [])
    {known whole : Regex}
    (compiled : Regex.compile Pattern.flags
      (group (capture .knownLicense 1 (oneOf parts.licenses))) = .ok known)
    (compiledWhole : Regex.compile Pattern.flags parts.composite = .ok whole)
    {text : Array Char}
    {moving : Bool}
    {pos : Nat}
    {found : Found}
    (is : known.matchAt text moving pos = .some found) :
    whole.matchAt text moving pos = .some found := by
  obtain ⟨branches, splits, -, tidy, late⟩ :=
    Plain.oneOf some sound.licenses (enlist [] (groupName .knownLicense 1))
  obtain ⟨others, someOthers, splitsOthers, each⟩ := offers_common sound surroundings.known
  rw [composite_known some, oneOf_cons] at compiledWhole
  refine (splits_known splits).matchAt_bar splitsOthers someOthers
    ⟨_, List.mem_cons_self, standsOut_single rfl⟩ ?_ compiled compiledWhole is
  refine List.forall_mem_cons.mpr ⟨⟨List.forall_mem_singleton.mpr nofun, ?_⟩, ?_⟩
  · exact List.forall_mem_singleton.mpr ((late_ofItems _).mpr
      ((late_alternatives tidy.written).mpr late))
  · exact fun branch member => ⟨(each branch member).1.written, (each branch member).1.late⟩

/-- With a single known licence, the composite expression tries that one first. -/
theorem compile_known
    {body : Expr}
    {entries : List Entry}
    (sound : parts.Sound)
    (only : parts.licenses = [body])
    (grows : Grows Pattern.flags body entries)
    (fine : ∀ item ∈ entries.flatMap Entry.items, item.late = none) :
    ∃ regex, Regex.compile Pattern.flags parts.composite = .ok regex ∧
      regex.Leads (Part.ofItems (entries.flatMap Entry.items)).node := by
  obtain ⟨others, some, splits, each⟩ := offers_common sound surroundings.known
  have known := splits_known (grows.splits true _)
  have single : oneOf [body] = body := List.intercalate_singleton
  have whole := known.bar splits
  rw [← oneOf_cons] at whole
  rw [composite_known (only ▸ List.cons_ne_nil body []), only, single]
  exact whole.compile_leads fine some each

end Scan

end NoticeScan
