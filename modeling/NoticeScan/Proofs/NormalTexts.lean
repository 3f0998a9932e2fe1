import NoticeScan.Proofs.Tidying

/-!
# Normal texts

A text that has been made normal is left as it is when it is made normal again. Between the
addresses that a search finds in a text it is made tidy, and so are its ends.
-/

namespace NoticeScan.Scan

open NoticeScan.Regex NoticeScan.Text

/-! ## The matches of a search -/

/-- Matches from a place on that stand just where links are, one behind another. -/
inductive Cuts (links : Lengths) (text : List Char) : Nat → List Regex.Found → Prop
  | last {pos : Nat}
      (within : pos ≤ text.length)
      (none : ∀ place, pos ≤ place → place ≤ text.length →
        (links (text.drop place)).head? = none) :
      Cuts links text pos []
  | next {pos taken : Nat} {found : Regex.Found} {rest : List Regex.Found}
      (least : pos ≤ found.start)
      (none : ∀ place, pos ≤ place → place < found.start → (links (text.drop place)).head? = none)
      (starts : (links (text.drop found.start)).head? = some taken)
      (stop : found.stop = found.start + taken)
      (within : found.stop ≤ text.length)
      (behind : Cuts links text found.stop rest) :
      Cuts links text pos (found :: rest)

section Cutting

variable {links : Lengths} {text : List Char} {pos : Nat} {founds : List Regex.Found}

theorem slice_eq
    (start stop : Nat) :
    slice text.toArray start stop = (text.drop start).take (stop - start) := by
  rw [slice, List.extract_toArray, List.toList_toArray, List.extract_eq_take_drop]

theorem slice_end :
    slice text.toArray pos text.toArray.size = text.drop pos := by
  rw [slice_eq, List.size_toArray]
  exact List.take_of_length_le (by rw [List.length_drop])

theorem length_slice
    {start stop : Nat}
    (within : stop ≤ text.length) :
    (slice text.toArray start stop).length = stop - start := by
  rw [slice_eq, List.length_take, List.length_drop]
  omega

theorem slice_append_drop
    {start stop : Nat}
    (ordered : start ≤ stop) :
    slice text.toArray start stop ++ text.drop stop = text.drop start := by
  obtain ⟨more, rfl⟩ := Nat.exists_eq_add_of_le ordered
  rw [slice_eq, Nat.add_sub_cancel_left, ← List.drop_drop, List.take_append_drop]

/-- The text between the matches is collapsed, and they are kept. -/
theorem Cuts.tidies
    (are : Links links)
    (cuts : Cuts links text pos founds) :
    Tidies links 0 false (text.drop pos) (collapseBetween text.toArray pos founds) := by
  induction cuts with
  | @last pos within none =>
      have collapsed : Tidies links 0 false (text.drop pos ++ [])
          (collapseFrom false (text.drop pos) ++ []) := by
        apply Tidies.collapsed .done (.inl rfl)
        intro place less
        rw [List.length_drop] at less
        rw [List.append_nil, List.drop_drop]
        exact none (pos + place) (Nat.le_add_right _ _) (by omega)
      rw [collapseBetween, slice_end]
      rwa [List.append_nil, List.append_nil] at collapsed
  | @next pos taken found rest least none starts stop within behind inductionHypothesis =>
      have moves := are.moving _ taken (List.mem_of_head? starts)
      have length : (slice text.toArray found.start found.stop).length = taken := by
        rw [length_slice within, stop, Nat.add_sub_cancel_left]
      obtain ⟨c, more, listed⟩ := List.exists_cons_of_length_pos (length.symm ▸ moves)
      rw [listed, List.length_cons] at length
      have here : text.drop found.start = c :: (more ++ text.drop found.stop) := by
        rw [← slice_append_drop (Nat.le_of_lt (show found.start < found.stop by omega)), listed,
          List.cons_append]
      have ofLink : Tidies links 0 false (text.drop found.start)
          (slice text.toArray found.start found.stop ++
            collapseBetween text.toArray found.stop rest) := by
        rw [here, ← length] at starts
        rw [here, listed]
        exact .link starts (inductionHypothesis.held more)
      rw [collapseBetween, List.append_assoc, ← slice_append_drop least]
      apply Tidies.collapsed ofLink (.inr (by simp [starts]))
      intro place less
      rw [length_slice (by omega)] at less
      rw [slice_append_drop least, List.drop_drop]
      exact none (pos + place) (Nat.le_add_right _ _) (by omega)

/-- A search finds the links of a text. -/
theorem cuts_findFrom
    {regex : Regex}
    (orderly : regex.node.orderly = true)
    (bare : regex.node.bare = true)
    (anywhere : regex.opening = none)
    (are : Links regex.node.lengths)
    (text : List Char)
    {bound pos : Nat}
    (within : pos ≤ text.length)
    (enough : text.length - pos < bound) :
    Cuts regex.node.lengths text pos (regex.findFrom text.toArray bound { pos := pos }) := by
  have noLink {place : Nat} (noMatch : regex.matchAt text.toArray false place = none) :
      (regex.node.lengths (text.drop place)).head? = none := by
    rwa [matchAt_orderly orderly anywhere, Option.map_eq_none_iff] at noMatch
  induction bound generalizing pos with
  | zero => cases enough
  | succ bound inductionHypothesis =>
      rw [Regex.findFrom, Regex.next?]
      cases is : regex.searchFrom text.toArray (text.toArray.size - pos) false pos with
      | none =>
          refine .last within fun place least most => noLink ?_
          have size : pos + (text.toArray.size - pos) = text.length := by
            rw [List.size_toArray, Nat.add_sub_cancel' within]
          exact Regex.searchFrom_none is place least (size ▸ most)
      | some found =>
          obtain ⟨matched, before⟩ := Regex.searchFrom_leftmost bare is
          rw [matchAt_orderly orderly anywhere] at matched
          obtain ⟨taken, starts, same⟩ := Option.map_eq_some_iff.mp matched
          have stop : found.stop = found.start + taken := by rw [← same]
          have moves := are.moving _ taken (List.mem_of_head? starts)
          have fits := (are.taking _ taken (List.mem_of_head? starts)).1
          rw [List.length_drop, List.toList_toArray] at fits
          have least := (Regex.searchFrom_tells (Node.fits_of_bare bare (Nat.le_refl 0)) is).1
          have moved : (found.stop == found.start) = false := by
            rw [beq_eq_false_iff_ne]
            omega
          dsimp only [Option.map_some]
          rw [moved]
          exact .next least (fun place from_ less => noLink (before place from_ less)) starts stop
            (by omega) (inductionHypothesis (by omega) (by omega))

/-! ### Decorations outside of links -/

theorem collapseFrom_decorations
    (inRun : Bool)
    (s : List Char) :
    (collapseFrom inRun s).length ≤ s.length ∧
      ∀ c ∈ collapseFrom inRun s, isDecoration c = true → c = ' ' := by
  induction s generalizing inRun with
  | nil => exact ⟨Nat.le_refl 0, nofun⟩
  | cons c rest inductionHypothesis =>
      rw [collapseFrom]
      cases decorates : isDecoration c with
      | false =>
          obtain ⟨shorter, spaced⟩ := inductionHypothesis false
          refine ⟨Nat.succ_le_succ shorter, List.forall_mem_cons.mpr ⟨?_, spaced⟩⟩
          intro decorated
          rw [decorates] at decorated
          cases decorated
      | true =>
          obtain ⟨shorter, spaced⟩ := inductionHypothesis true
          cases inRun with
          | false =>
              exact ⟨Nat.succ_le_succ shorter, List.forall_mem_cons.mpr ⟨fun _ => rfl, spaced⟩⟩
          | true => exact ⟨Nat.le_succ_of_le shorter, spaced⟩

/-- In a text that is left as it is, the decorations outside of links are spaces. -/
theorem Cuts.decorations
    (are : Links links)
    (cuts : Cuts links text pos founds)
    (same : collapseBetween text.toArray pos founds = text.drop pos)
    {place : Nat}
    {c : Char}
    (here : text[place]? = some c)
    (decorates : isDecoration c = true)
    (least : pos ≤ place)
    (outside : ∀ found ∈ founds, ¬ (found.start ≤ place ∧ place < found.stop)) :
    c = ' ' := by
  induction cuts with
  | @last pos within none =>
      have listed : c ∈ text.drop pos :=
        List.mem_of_getElem? (i := place - pos) (by
          rwa [List.getElem?_drop, Nat.add_sub_cancel' least])
      rw [collapseBetween] at same
      rw [← same] at listed
      exact (collapseFrom_decorations _ _).2 c listed decorates
  | @next pos taken found rest first none starts stop within behind inductionHypothesis =>
      rw [collapseBetween, ← slice_append_drop first,
        ← slice_append_drop (show found.start ≤ found.stop by omega), List.append_assoc] at same
      have shorter := (collapseFrom_decorations false (slice text.toArray pos found.start)).1
      have shorterToo := (behind.tidies are).length_le
      have lengths := congrArg List.length same
      simp only [List.length_append] at lengths
      obtain ⟨sameFront, sameBack⟩ := List.append_inj same (by
        rw [collapse]
        rw [collapse] at lengths
        omega)
      have ofBehind := List.append_cancel_left sameBack
      rcases Nat.lt_or_ge place found.start with before | after
      · have listed : c ∈ slice text.toArray pos found.start := by
          rw [slice_eq]
          apply List.mem_of_getElem? (i := place - pos)
          rw [List.getElem?_take_of_lt (by omega), List.getElem?_drop, Nat.add_sub_cancel' least,
            here]
        rw [← sameFront] at listed
        exact (collapseFrom_decorations _ _).2 c listed decorates
      · have beyond : found.stop ≤ place :=
          Nat.le_of_not_lt fun less => outside found List.mem_cons_self ⟨after, less⟩
        exact inductionHypothesis ofBehind beyond fun other member =>
          outside other (List.mem_cons_of_mem found member)

end Cutting

/-! ## Addresses -/

/-- The code points of blanks. -/
def blankPoints : List Nat :=
  List.range' 0x09 5 ++ List.range' 0x1C 5 ++ [0x85, 0xA0, 0x1680] ++ List.range' 0x2000 11 ++
    [0x2028, 0x2029, 0x202F, 0x205F, 0x3000]

theorem mem_blankPoints
    {c : Char}
    (blank : isBlank c = true) :
    c.toNat ∈ blankPoints := by
  simp only [isBlank, isBlankPoint] at blank
  simp only [blankPoints, List.mem_append, List.mem_range'_1, List.mem_cons, List.not_mem_nil]
  split at blank
  · simp at blank
    omega
  · simp at blank
    omega

/-- Whether no blank passes a test. -/
def passesNoBlank (test : CharTest) : Bool :=
  blankPoints.all fun x => !test.passes (Char.ofNat x)

theorem isBlank_of_passes
    {test : CharTest}
    (noBlank : passesNoBlank test = true)
    {c : Char}
    (passed : test.passes c = true) :
    isBlank c = false := by
  rw [← Bool.not_eq_true]
  intro blank
  have refused := List.all_eq_true.mp noBlank _ (mem_blankPoints blank)
  rw [Char.ofNat_toNat, passed] at refused
  cases refused

theorem address_facts :
    address.node.orderly = true ∧ address.node.bare = true ∧ address.opening = none ∧
      address.node.demands (fun _ => true) = true ∧
      address.node.onlyTests passesNoBlank = true := by
  decide +kernel

theorem links_address : Links address.node.lengths := by
  obtain ⟨-, -, -, demands, only⟩ := address_facts
  refine ⟨address.node.lengths_local, Node.lengths_moving demands, ?_⟩
  intro s taken member
  obtain ⟨within, accepted⟩ := Node.lengths_taking only s taken member
  refine ⟨within, fun c inside => ?_⟩
  obtain ⟨test, noBlank, passed⟩ := accepted c inside
  exact isBlank_of_passes noBlank passed

theorem cuts_address
    (s : List Char) :
    Cuts address.node.lengths s 0 (address.findAll s.toArray) := by
  obtain ⟨orderly, bare, anywhere, -⟩ := address_facts
  apply cuts_findFrom orderly bare anywhere links_address s (Nat.zero_le _)
  rw [Regex.matchBound, List.size_toArray]
  omega

/-! ## Texts that are normal -/

/-- A text that making normal leaves as it is: no blank stands at its ends, and outside of the
addresses in it the only decorations are single spaces. -/
structure IsNormal (text : List Char) : Prop where
  fixed : normalText text = text
  front : ∀ c ∈ text.head?, isBlank c = false
  back : ∀ c ∈ text.getLast?, isBlank c = false
  spaces : ∀ place c, text[place]? = some c → isDecoration c = true →
    (∀ found ∈ address.findAll text.toArray, ¬ (found.start ≤ place ∧ place < found.stop)) →
    c = ' '
  single : ∀ place, text[place]? = some ' ' → text[place + 1]? ≠ some ' '

theorem trim_of_ends
    {s : List Char}
    (front : ∀ c ∈ s.head?, isBlank c = false)
    (back : ∀ c ∈ s.getLast?, isBlank c = false) :
    trim s = s := by
  have kept : s.dropWhile isBlank = s := by
    cases s with
    | nil => rfl
    | cons c rest => rw [List.dropWhile_cons_of_neg (by simp [front c rfl])]
  have keptToo : s.rdropWhile isBlank = s := by
    rw [List.rdropWhile_eq_self_iff]
    intro filled
    rw [back _ (List.getLast?_eq_some_getLast filled)]
    exact Bool.false_ne_true
  rw [trim, trimOf, kept]
  exact keptToo

theorem isNormal_of_tidy
    {text : List Char}
    (tidy : Tidies address.node.lengths 0 false text text)
    (front : ∀ c ∈ text.head?, isBlank c = false)
    (back : ∀ c ∈ text.getLast?, isBlank c = false) :
    IsNormal text := by
  have same : collapseBetween text.toArray 0 (address.findAll text.toArray) = text :=
    ((cuts_address text).tidies links_address).unique tidy
  refine ⟨?_, front, back, ?_, ?_⟩
  · rw [normalText, same, trim_of_ends front back]
  · intro place c here decorates outside
    exact (cuts_address text).decorations links_address same here decorates (Nat.zero_le place)
      outside
  · intro place here next
    obtain ⟨inside, first⟩ := List.getElem?_eq_some_iff.mp here
    obtain ⟨insideToo, second⟩ := List.getElem?_eq_some_iff.mp next
    have apart := (tidy.spaces links_address (by simp)).2.1
    exact List.isChain_iff_getElem.mp apart place insideToo first second

/-- A text is normal once it has been made normal. -/
theorem isNormal_normalText
    (s : List Char) :
    IsNormal (normalText s) := by
  have tidies := (cuts_address s).tidies links_address
  have tidy := (tidies.fixed links_address (Nat.zero_le _)).trim links_address
  exact isNormal_of_tidy tidy (fun _ first => head?_trimOf first) fun _ last => getLast?_trimOf last

-- Of the slashes only those in the address are kept, and making the text normal again finds it.
example :
    normalText "// see  http://a.b/c/ *#\thttp://d/e# ".toList =
      "see http://a.b/c http://d/e".toList := by
  decide +kernel

end NoticeScan.Scan
