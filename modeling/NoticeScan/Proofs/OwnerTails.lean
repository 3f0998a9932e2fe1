import NoticeScan.Proofs.KnownOwners
import NoticeScan.Proofs.NormalTexts

/-!
# Owners without phrases behind them

Where the name of an owner is cut, a new end comes about, and some of the phrases that follow
names look at the end of the text or at the border of a word. No phrase is found there because of
it: behind the cut a blank has stood, at which a word ends just as at the end of a text, and the
one phrase that asks for the end has a twin that asks for a blank instead.
-/

namespace NoticeScan

open NoticeScan.Regex NoticeScan.Scan NoticeScan.Text

namespace Regex

/-! ## Texts that go on with a blank -/

/-- Whether an expression looks at what is around it no more than at the border of a word. -/
def Node.steady : Node → Bool
  | .empty | .never | .char _ => true
  | .anchor place =>
      match place with
      | .wordEdge _ => true
      | _ => false
  | .seq first second | .alt first second => first.steady && second.steady
  | .group _ body | .atomic body | .repeated _ _ _ body => body.steady
  | .again _ _ | .look _ _ _ | .branch _ _ _ => false

section Fronts

variable {front rest : List Char} {start stop : Nat} {passes : List Pass}

theorem getElem?_front
    (rest : List Char)
    {c : Char}
    (here : front.toArray[start]? = some c) :
    start < front.length ∧ (front ++ ' ' :: rest).toArray[start]? = some c := by
  rw [List.getElem?_toArray] at here ⊢
  have within := (List.getElem?_eq_some_iff.mp here).1
  exact ⟨within, by rw [List.getElem?_append_left within, here]⟩

theorem wordAt_front
    (ascii : Bool)
    {place : Nat}
    (within : place ≤ front.length) :
    wordAt (front ++ ' ' :: rest).toArray ascii place = wordAt front.toArray ascii place := by
  rw [wordAt, wordAt, List.getElem?_toArray, List.getElem?_toArray]
  rcases Nat.lt_or_eq_of_le within with inside | rfl
  · rw [List.getElem?_append_left inside]
  · rw [List.getElem?_append_right (Nat.le_refl _), Nat.sub_self, List.getElem?_cons_zero,
      List.getElem?_eq_none (Nat.le_refl _)]
    cases ascii <;> decide

/-- The border of a word stays one when a blank comes behind the text. -/
theorem wordEdge_front
    {ascii : Bool}
    (within : start ≤ front.length)
    (edge : (Anchor.wordEdge ascii).holds front.toArray start = true) :
    (Anchor.wordEdge ascii).holds (front ++ ' ' :: rest).toArray start = true := by
  rw [Anchor.holds, Bool.and_eq_true, atWordEdge] at edge ⊢
  rw [wordAt_front ascii within, wordAt_front ascii ((Nat.sub_le _ _).trans within)]
  refine ⟨decide_eq_true ?_, edge.2⟩
  rw [List.size_toArray, List.length_append, List.length_cons]
  omega

/-- A steady way stays one when a blank comes behind the text. -/
theorem Node.ways_front
    (rest : List Char)
    {node : Node}
    (steady : node.steady = true)
    (within : start ≤ front.length)
    (way : node.ways front.toArray start stop passes) :
    stop ≤ front.length ∧ node.ways (front ++ ' ' :: rest).toArray start stop passes := by
  induction node generalizing start stop passes with
  | empty => exact ⟨way.1 ▸ within, way⟩
  | never => exact way.elim
  | char test =>
      obtain ⟨⟨c, here, passed⟩, rfl, rfl⟩ := way
      obtain ⟨inside, there⟩ := getElem?_front rest here
      exact ⟨inside, ⟨c, there, passed⟩, rfl, rfl⟩
  | anchor place =>
      obtain ⟨holds, rfl, rfl⟩ := way
      cases place with
      | wordEdge ascii => exact ⟨within, wordEdge_front within holds, rfl, rfl⟩
      | _ => cases steady
  | seq first second ofFirst ofSecond =>
      obtain ⟨steadyFirst, steadySecond⟩ := Bool.and_eq_true_iff.mp steady
      obtain ⟨middle, before, after, one, other, rfl⟩ := way
      obtain ⟨inside, oneThere⟩ := ofFirst steadyFirst within one
      obtain ⟨insideToo, otherThere⟩ := ofSecond steadySecond inside other
      exact ⟨insideToo, middle, before, after, oneThere, otherThere, rfl⟩
  | alt first second ofFirst ofSecond =>
      obtain ⟨steadyFirst, steadySecond⟩ := Bool.and_eq_true_iff.mp steady
      rcases way with one | other
      · exact (ofFirst steadyFirst within one).imp_right Or.inl
      · exact (ofSecond steadySecond within other).imp_right Or.inr
  | group index body ofBody =>
      obtain ⟨inner, inside, rfl⟩ := way
      obtain ⟨within', there⟩ := ofBody steady within inside
      exact ⟨within', inner, there, rfl⟩
  | again index folding => cases steady
  | look behind negated body _ => cases steady
  | atomic body ofBody => exact ofBody steady within way
  | repeated greed low high body ofBody =>
      obtain ⟨count, least, most, rounds⟩ := way
      have all : stop ≤ front.length ∧
          Ways.times count (body.ways (front ++ ' ' :: rest).toArray) start stop passes := by
        clear least most
        induction count generalizing start passes with
        | zero => exact ⟨rounds.1 ▸ within, rounds⟩
        | succ count inductionHypothesis =>
            obtain ⟨middle, before, after, one, others, rfl⟩ := rounds
            obtain ⟨inside, oneThere⟩ := ofBody steady within one
            obtain ⟨insideToo, othersThere⟩ := inductionHypothesis inside others
            exact ⟨insideToo, middle, before, after, oneThere, othersThere, rfl⟩
      exact ⟨all.1, count, least, most, all.2⟩
  | branch index yes no _ _ => cases steady

/-! ## Expressions that ask for the end of the text -/

/-- An expression that asks for a blank where another one asks for the end of the text. -/
def Node.withBlank : Node → Node
  | .seq first second => .seq first second.withBlank
  | .anchor .lastLineEnd => .char (.listed false [0x20])
  | node => node

/-- Whether an expression asks for the end of the text behind everything else, and is steady in
front of that. -/
def Node.asksEnd : Node → Bool
  | .seq first second => first.steady && second.asksEnd
  | .anchor .lastLineEnd => true
  | _ => false

/-- Where an expression asks for the end of the text, its twin finds the blank behind it. -/
theorem Node.ways_withBlank
    (rest : List Char)
    {node : Node}
    (asks : node.asksEnd = true)
    (noFeed : '\n' ∉ front)
    (within : start ≤ front.length)
    (way : node.ways front.toArray start stop passes) :
    ∃ further more, node.withBlank.ways (front ++ ' ' :: rest).toArray start further more := by
  induction node generalizing start stop passes with
  | seq first second _ ofSecond =>
      obtain ⟨steady, asksToo⟩ := Bool.and_eq_true_iff.mp asks
      obtain ⟨middle, before, after, one, other, -⟩ := way
      obtain ⟨inside, oneThere⟩ := Node.ways_front rest steady within one
      obtain ⟨further, more, otherThere⟩ := ofSecond asksToo inside other
      exact ⟨further, before ++ more, middle, before, more, oneThere, otherThere, rfl⟩
  | anchor place =>
      cases place with
      | lastLineEnd =>
          obtain ⟨holds, -, -⟩ := way
          have atEnd : start = front.length := by
            rw [Anchor.holds, Bool.or_eq_true, Bool.and_eq_true, List.size_toArray,
              List.getElem?_toArray] at holds
            rcases holds with last | ⟨-, feed⟩
            · exact beq_iff_eq.mp last
            · exact absurd (List.mem_of_getElem? (beq_iff_eq.mp feed)) noFeed
          refine ⟨start + 1, [], ⟨' ', ?_, rfl⟩, rfl, rfl⟩
          rw [atEnd, List.getElem?_toArray, List.getElem?_append_right (Nat.le_refl _),
            Nat.sub_self, List.getElem?_cons_zero]
      | _ => cases asks
  | _ => cases asks

/-! ## Choices -/

/-- The expressions that an expression chooses from. -/
def Node.choices : Node → List Node
  | .alt first second => first :: second.choices
  | node => [node]

theorem Node.ways_iff_choices
    {text : Array Char}
    {node : Node} :
    node.ways text start stop passes ↔
      ∃ choice ∈ node.choices, choice.ways text start stop passes := by
  induction node with
  | alt first second _ ofSecond =>
      rw [Node.choices, List.exists_mem_cons_iff, ← ofSecond]
      rfl
  | _ => simp [Node.choices]

/-- Whether everything that an expression chooses from is steady, or asks for the end of the text
and has a twin among the others. -/
def Node.outlasts : Node → Bool
  | .seq first second =>
      first.steady && second.choices.all fun choice =>
        choice.steady || (choice.asksEnd && second.choices.contains choice.withBlank)
  | _ => false

theorem Begins.behind
    {regex : Regex}
    (rest : List Char)
    (outlasts : regex.node.outlasts = true)
    (noFeed : '\n' ∉ front)
    (within : start ≤ front.length)
    (begins : regex.Begins front.toArray start) :
    regex.Begins (front ++ ' ' :: rest).toArray start := by
  obtain ⟨stop, passes, way⟩ := begins
  rw [Begins]
  generalize regex.node = node at outlasts way
  cases node with
  | seq first second =>
      obtain ⟨steady, each⟩ := Bool.and_eq_true_iff.mp outlasts
      obtain ⟨middle, before, after, one, other, -⟩ := way
      obtain ⟨inside, oneThere⟩ := Node.ways_front rest steady within one
      obtain ⟨choice, listed, chosen⟩ := Node.ways_iff_choices.mp other
      have otherThere : ∃ further more,
          second.ways (front ++ ' ' :: rest).toArray middle further more := by
        rcases Bool.or_eq_true_iff.mp (List.all_eq_true.mp each choice listed) with mild | ends
        · obtain ⟨-, there⟩ := Node.ways_front rest mild inside chosen
          exact ⟨stop, after, Node.ways_iff_choices.mpr ⟨choice, listed, there⟩⟩
        · obtain ⟨asks, twin⟩ := Bool.and_eq_true_iff.mp ends
          obtain ⟨further, more, there⟩ := Node.ways_withBlank rest asks noFeed inside chosen
          exact ⟨further, more,
            Node.ways_iff_choices.mpr ⟨_, List.contains_iff_mem.mp twin, there⟩⟩
      obtain ⟨further, more, there⟩ := otherThere
      exact ⟨further, before ++ more, middle, before, more, oneThere, there, rfl⟩
  | _ => cases outlasts

end Fronts

end Regex

namespace Scan

variable {text owner : List Char} {place : Nat}

/-! ## Names that have been cut -/

theorem ownerTail_outlasts : ownerTail.node.outlasts = true := by
  decide +kernel

/-- A phrase in a text with a blank behind it is one in the longer text. -/
theorem TailAt.behind
    {front rest : List Char}
    (noFeed : '\n' ∉ front)
    (tail : TailAt front place) :
    TailAt (front ++ ' ' :: rest) place := by
  have inside : place < front.length := (List.getElem?_eq_some_iff.mp tail.blank).1
  exact Regex.Begins.behind rest ownerTail_outlasts noFeed (Nat.le_of_lt inside) tail

/-- No phrase is left in the part of a text that names an owner. -/
theorem OwnerPart.not_tailAt
    (part : OwnerPart text owner)
    (noFeed : '\n' ∉ owner) :
    ¬ TailAt owner place := by
  intro tail
  have inside : place < owner.length := (List.getElem?_eq_some_iff.mp tail.blank).1
  apply part.untouched place inside
  rcases part.cut with rfl | cut
  · exact tail
  · obtain ⟨behind, rfl⟩ := part.front
    have blank := cut.blank
    rw [List.getElem?_append_right (Nat.le_refl _), Nat.sub_self] at blank
    cases behind with
    | nil => cases blank
    | cons c rest =>
        cases blank
        exact tail.behind noFeed

theorem find?_ownerTail_eq_none
    (free : ∀ place, ¬ TailAt text place) :
    ownerTail.find? text.toArray = none := by
  cases is : ownerTail.find? text.toArray with
  | none => rfl
  | some found =>
      obtain ⟨matched, -⟩ := searchFrom_leftmost ownerTail_facts.1 is
      exact absurd (matchAt_ownerTail.mp (by rw [matched]; rfl)) (free found.start)

/-- The only blanks of a normal text are spaces. -/
theorem eq_space_of_mem_normalText
    {c : Char}
    (member : c ∈ normalText text)
    (blank : isBlank c = true) :
    c = ' ' := by
  have spaced := (((cuts_address text).tidies links_address).spaces links_address (by simp)).1
  refine spaced c ?_ blank
  rw [normalText, trim, trimOf, List.mem_reverse] at member
  have inFront := List.mem_reverse.mp ((List.dropWhile_sublist _).subset member)
  exact (List.dropWhile_sublist _).subset inFront

/-- The name of an owner is cut once and for all: it is the front of a normal text, something is
left of it if something was there, no phrase is found in it any more, and cutting it again leaves
it as it is. -/
theorem normalOwner_settled
    (text : List Char) :
    let normal := normalText text
    let owner := normalOwner normal
    owner <+: normal ∧ (normal ≠ [] → owner ≠ []) ∧
      ownerTail.find? owner.toArray = none ∧ normalOwner owner = owner := by
  intro normal owner
  have part : OwnerPart normal owner := ownerPart_normalOwner normal
  have noFeed : '\n' ∉ owner := by
    intro member
    have same : '\n' = ' ' :=
      eq_space_of_mem_normalText (part.front.subset member) (by decide)
    cases same
  have nothingFound : ownerTail.find? owner.toArray = none :=
    find?_ownerTail_eq_none fun place => part.not_tailAt noFeed
  refine ⟨part.front, ?_, nothingFound, ?_⟩
  · intro filled empty
    rcases part.cut with same | tail
    · exact filled (same.symm.trans empty)
    · have first : normal.head? = some ' ' := by
        rw [List.head?_eq_getElem?]
        rw [empty] at tail
        exact tail.blank
      have noBlank : isBlank ' ' = false := head?_trimOf first
      cases noBlank
  · rw [normalOwner, nothingFound]

-- In a text that is not normal, the cut can bring about the end that a phrase asks for.
example :
    normalOwner "Acme include\n all rights".toList = "Acme include\n".toList ∧
      normalOwner "Acme include\n".toList = "Acme".toList := by
  decide +kernel

end Scan

end NoticeScan
