import NoticeScan.Proofs.Accepted
import NoticeScan.Proofs.Lexemes

/-!
# Classes in widened patterns

Open words are replaced outside classes only. Blanks are replaced wherever they stand, so a class
is left alone just when no blank is in it. A pattern is refused for a blank in a class unless the
blank is escaped: it is an escaped blank that a class does not survive.
-/

namespace NoticeScan.Pattern

open NoticeScan.Regex NoticeScan.Text

/-- The text of a lexeme that is a class. -/
def Lexeme.class? : Lexeme → Option (List Char)
  | .charClass text _ => some text
  | _ => none

/-- The character classes of a text, in order. -/
def classes (text : List Char) : List (List Char) :=
  (lexemes text).filterMap Lexeme.class?

variable {limits : Limits}

theorem Whole.classes_append
    {text : List Char}
    (whole : Whole text)
    (rest : List Char) :
    classes (text ++ rest) = classes text ++ classes rest := by
  rw [classes, whole, List.filterMap_append]
  rfl

theorem subset_of_mem_classes
    {text inside : List Char}
    (member : inside ∈ classes text) :
    inside ⊆ text := by
  intro c among
  obtain ⟨unit, listed, isClass⟩ := List.mem_filterMap.mp member
  have written : c ∈ unit.text := by
    cases unit <;> cases isClass
    exact among
  rw [← flatMap_lexemes text]
  exact List.mem_flatMap.mpr ⟨unit, listed, written⟩

theorem Solid.of_mem_classes
    {text inside : List Char}
    (solid : Solid text)
    (member : inside ∈ classes text) :
    Solid inside :=
  fun c among => solid c (subset_of_mem_classes member among)

/-! ## Texts in front of classes -/

/-- A text that leaves the classes behind it alone and has no class with a blank itself. -/
structure Bland (text : List Char) : Prop where
  whole : Whole text
  solid : ∀ inside ∈ classes text, Solid inside

theorem bland_of_solid
    {text : List Char}
    (whole : Whole text)
    (solid : Solid text) :
    Bland text :=
  ⟨whole, fun _ member => solid.of_mem_classes member⟩

theorem Bland.append
    {text more : List Char}
    (bland : Bland text)
    (blandMore : Bland more) :
    Bland (text ++ more) := by
  refine ⟨bland.whole.append blandMore.whole, ?_⟩
  rw [bland.whole.classes_append]
  exact List.forall_mem_append.mpr ⟨bland.solid, blandMore.solid⟩

theorem bland_simples
    {text : List Char}
    (simple : ∀ c ∈ text, isSimple c = true) :
    Bland text := by
  refine ⟨whole_simples simple, fun inside member => ?_⟩
  have cut := lexemes_simples simple []
  rw [List.append_nil, lexemes_nil, List.append_nil] at cut
  rw [classes, cut, List.filterMap_map] at member
  obtain ⟨c, -, none⟩ := List.mem_filterMap.mp member
  cases none

theorem bland_escape (c : Char) :
    Bland ['\\', c] :=
  ⟨whole_escape c, fun _ member => absurd member List.not_mem_nil⟩

/-! ## Classes that are preserved -/

/-- What becomes of classes when a text is rewritten: they are still there, in the same order,
and what is new has no blanks. -/
structure Preserved (old new : List (List Char)) : Prop where
  inOrder : old.Sublist new
  others : ∀ text ∈ new, text ∈ old ∨ Solid text

theorem Bland.preserved
    {text : List Char}
    (bland : Bland text) :
    Preserved [] (classes text) :=
  ⟨List.nil_sublist _, fun inside member => Or.inr (bland.solid inside member)⟩

theorem Preserved.behind
    {front back : List Char}
    {old : List (List Char)}
    (preserved : Preserved old (classes back))
    (bland : Bland front) :
    Preserved old (classes (front ++ back)) := by
  rw [bland.whole.classes_append]
  refine ⟨preserved.inOrder.trans (List.sublist_append_right _ _), ?_⟩
  exact List.forall_mem_append.mpr
    ⟨fun inside member => Or.inr (bland.solid inside member), preserved.others⟩

theorem Preserved.cons
    {text back : List Char}
    {spaced : Bool}
    {old : List (List Char)}
    (preserved : Preserved old (classes back))
    (isClass : IsClass text spaced) :
    Preserved (text :: old) (classes (text ++ back)) := by
  have first : classes (text ++ back) = text :: classes back := by
    rw [classes, isClass.read]
    rfl
  rw [first]
  refine ⟨preserved.inOrder.cons_cons text, List.forall_mem_cons.mpr ⟨?_, fun inside member => ?_⟩⟩
  · exact Or.inl List.mem_cons_self
  · exact (preserved.others inside member).imp_left (List.mem_cons_of_mem text)

/-! ### Open words -/

theorem isSimple_of_isBlank
    {c : Char}
    (blank : isBlank c = true) :
    isSimple c = true := by
  refine isSimple_iff.mpr ⟨?_, ?_⟩ <;> rintro rfl <;> cases blank

/-- The blanks that are held back, with a backslash that may stand right before them. -/
theorem bland_held
    {pending held : List Char}
    (escape : pending = [] ∨ pending = ['\\'] ∧ held ≠ [])
    (blank : ∀ c ∈ held, isBlank c = true) :
    Bland (pending ++ held.reverse) := by
  have simple : ∀ c ∈ held.reverse, isSimple c = true :=
    fun c member => isSimple_of_isBlank (blank c (List.mem_reverse.mp member))
  rcases escape with rfl | ⟨rfl, some⟩
  · exact bland_simples simple
  · obtain ⟨c, more, same⟩ := List.exists_cons_of_ne_nil (List.reverse_ne_nil_iff.mpr some)
    rw [same] at simple ⊢
    exact (bland_escape c).append (bland_simples (List.forall_mem_cons.mp simple).2)

theorem bland_pendingWildcard
    {pending held : List Char}
    (escape : pending = [] ∨ pending = ['\\'] ∧ held ≠ [])
    (low : Int) :
    Bland (pending ++ wildcard low limits) := by
  rcases escape with rfl | ⟨rfl, -⟩
  · exact bland_of_solid (whole_wildcard low) (solid_wildcard low)
  · exact bland_of_solid (whole_escapedWildcard low) ((solid_wildcard low).cons rfl)

theorem preserved_widenUnits
    {units : List Lexeme}
    {skipping : Bool}
    {pending held : List Char}
    {before : Option Char}
    (written : Written units)
    (escape : pending = [] ∨ pending = ['\\'] ∧ held ≠ [])
    (blank : ∀ c ∈ held, isBlank c = true)
    (skips : skipping = true → held = []) :
    Preserved (units.filterMap Lexeme.class?)
      (classes (pending ++ widenUnits limits units skipping held before)) := by
  have nothing : ∀ c ∈ ([] : List Char), isBlank c = true := fun c none => by cases none
  fun_induction widenUnits limits units skipping held before generalizing pending with
  | case1 => exact (bland_held escape blank).preserved
  | case2 skipping c rest held before opens inductionHypothesis =>
      cases written with
      | other _ behind =>
          cases behind with
          | other _ behind =>
              rw [← List.append_assoc]
              exact (inductionHypothesis behind (Or.inl rfl) nothing fun _ => rfl).behind
                (bland_pendingWildcard escape _)
  | case3 skipping c rest held before shut inductionHypothesis =>
      cases written with
      | other simple behind =>
          rw [← List.append_assoc, List.append_cons]
          exact (inductionHypothesis behind (Or.inl rfl) nothing fun _ => rfl).behind
            ((bland_held escape blank).append
              (bland_simples (List.forall_mem_singleton.mpr simple)))
  | case4 before c rest held shut isBlank inductionHypothesis =>
      cases written with
      | other _ behind =>
          have none := skips rfl
          subst none
          have plain : pending = [] := escape.resolve_right fun both => both.2 rfl
          exact inductionHypothesis behind (Or.inl plain) nothing fun _ => rfl
  | case5 before c rest skipping held shut isBlank passing inductionHypothesis =>
      cases written with
      | other _ behind =>
          exact inductionHypothesis behind
            (escape.imp_right fun both => ⟨both.1, List.cons_ne_nil c held⟩)
            (List.forall_mem_cons.mpr ⟨isBlank, blank⟩) fun same => by cases same
  | case6 before c rest skipping held shut plain inductionHypothesis =>
      cases written with
      | other simple behind =>
          rw [← List.append_assoc, List.append_cons]
          exact (inductionHypothesis behind (Or.inl rfl) nothing fun _ => rfl).behind
            ((bland_held escape blank).append
              (bland_simples (List.forall_mem_singleton.mpr simple)))
  | case7 skipping before rest held inductionHypothesis =>
      cases written with
      | lone =>
          rw [← List.append_assoc]
          exact Preserved.behind ⟨List.nil_sublist _, fun _ none => by cases none⟩
            (bland_held escape blank)
  | case8 skipping before c rest held ofBlank ofPlain =>
      cases written with
      | escape _ behind =>
          rw [← List.append_assoc]
          refine Preserved.behind ?_ (bland_held escape blank)
          split
          · rename_i isBlank
            exact ofBlank behind (Or.inr ⟨rfl, List.cons_ne_nil c []⟩)
              (List.forall_mem_singleton.mpr isBlank) fun same => by cases same
          · exact (ofPlain behind (Or.inl rfl) nothing fun same => by cases same).behind
              (bland_escape c)
  | case9 skipping before text spaced rest held inductionHypothesis =>
      cases written with
      | charClass isClass behind =>
          rw [← List.append_assoc]
          exact ((inductionHypothesis behind (Or.inl rfl) nothing fun same => by cases same).cons
            isClass).behind (bland_held escape blank)
  | case10 skipping before text rest held inductionHypothesis =>
      cases written with
      | openClass opened =>
          rw [← List.append_assoc]
          refine Preserved.behind ?_ (bland_held escape blank)
          rw [widenUnits, List.reverse_nil, List.append_nil, classes, opened]
          exact ⟨List.nil_sublist _, fun _ none => by cases none⟩

/-- Open words are replaced outside classes. -/
theorem preserved_widenWords (pattern : List Char) :
    Preserved (classes pattern) (classes (widenWords limits pattern)) := by
  rw [widenWords_eq]
  exact preserved_widenUnits (written_lexemes pattern) (Or.inl rfl)
    (fun c none => by cases none) fun same => by cases same

/-! ### Blanks -/

/-- What is put in for the blanks that end in front of a sign. -/
def gap (limits : Limits) (inRun : Bool) : Expr :=
  if inRun then Pattern.space 1 limits else []

theorem widenBlanks_gap
    {c : Char}
    (noBlank : isBlank c = false)
    (noMark : c ≠ '?')
    (inRun : Bool)
    (rest : List Char) :
    widenBlanks limits inRun (c :: rest) =
      gap limits inRun ++ c :: widenBlanks limits false rest := by
  cases inRun with
  | false => exact widenBlanks_cons noBlank rest
  | true => exact widenBlanks_true_cons noBlank noMark rest

/-- No blank is left over. -/
theorem solid_widenBlanks
    (inRun : Bool)
    (text : List Char) :
    Solid (widenBlanks limits inRun text) := by
  induction text generalizing inRun with
  | nil =>
      cases inRun with
      | false => exact fun c none => absurd none List.not_mem_nil
      | true => exact solid_space 1
  | cons c rest inductionHypothesis =>
      rw [widenBlanks]
      split
      · exact inductionHypothesis true
      · rename_i plain
        have noBlank : isBlank c = false := by simpa using plain
        split
        · exact (inductionHypothesis false).cons noBlank
        · split
          · exact (solid_space 0).append (inductionHypothesis false)
          · exact (solid_space 1).append ((inductionHypothesis false).cons noBlank)

theorem widenBlanks_of_solid
    {text : List Char}
    (solid : Solid text) :
    widenBlanks limits false text = text :=
  calc
    widenBlanks limits false text = widenBlanks limits false (text ++ []) := by
      rw [List.append_nil]
    _ = text ++ widenBlanks limits false [] := widenBlanks_solid solid []
    _ = text := List.append_nil text

theorem bland_space
    {inRun : Bool}
    {pending : List Char}
    (escape : pending = [] ∨ pending = ['\\'] ∧ inRun = true)
    (low : Int) :
    Bland (pending ++ Pattern.space low limits) := by
  rcases escape with rfl | ⟨rfl, -⟩
  · exact bland_of_solid (whole_space low) (solid_space low)
  · exact bland_of_solid (whole_escapedSpace low) ((solid_space low).cons rfl)

theorem bland_gap
    {inRun : Bool}
    {pending : List Char}
    (escape : pending = [] ∨ pending = ['\\'] ∧ inRun = true) :
    Bland (pending ++ gap limits inRun) := by
  cases inRun with
  | true => exact bland_space escape 1
  | false =>
      have plain : pending = [] := escape.resolve_right fun both => by cases both.2
      subst plain
      exact bland_of_solid whole_nil fun c none => absurd none List.not_mem_nil

theorem preserved_widenBlanks
    {units : List Lexeme}
    {inRun : Bool}
    {pending : List Char}
    (written : Written units)
    (solid : ∀ text ∈ units.filterMap Lexeme.class?, Solid text)
    (escape : pending = [] ∨ pending = ['\\'] ∧ inRun = true) :
    Preserved (units.filterMap Lexeme.class?)
      (classes (pending ++ widenBlanks limits inRun (units.flatMap Lexeme.text))) := by
  have nothing : ∀ {text}, Solid text → Preserved [] (classes text) := fun solid =>
    ⟨List.nil_sublist _, fun _ member => Or.inr (solid.of_mem_classes member)⟩
  have solidPending : Solid pending := by
    rcases escape with rfl | ⟨rfl, -⟩ <;> decide
  induction written generalizing inRun pending with
  | nil => exact nothing (solidPending.append (solid_widenBlanks inRun _))
  | lone => exact nothing (solidPending.append (solid_widenBlanks inRun _))
  | openClass opened => exact nothing (solidPending.append (solid_widenBlanks inRun _))
  | escape c written inductionHypothesis =>
      rw [List.flatMap_cons, Lexeme.text, List.cons_append, List.singleton_append,
        widenBlanks_gap rfl (by decide), ← List.append_assoc]
      refine Preserved.behind ?_ (bland_gap escape)
      cases blank : isBlank c with
      | true =>
          rw [widenBlanks, if_pos blank]
          exact inductionHypothesis solid (Or.inr ⟨rfl, rfl⟩) (by decide)
      | false =>
          rw [widenBlanks_cons blank]
          exact (inductionHypothesis solid (Or.inl rfl) (by decide)).behind (bland_escape c)
  | charClass isClass written inductionHypothesis =>
      rename_i text spaced rest
      obtain ⟨here, later⟩ := List.forall_mem_cons.mp solid
      have next : Preserved _ (classes ([] ++ widenBlanks limits false _)) :=
        inductionHypothesis later (Or.inl rfl) (by decide)
      obtain ⟨inner, rfl⟩ := isClass.starts
      rw [List.flatMap_cons, Lexeme.text, List.cons_append, widenBlanks_gap rfl (by decide),
        ← List.append_assoc, widenBlanks_solid (List.forall_mem_cons.mp here).2]
      exact (next.cons isClass).behind (bland_gap escape)
  | other simple written inductionHypothesis =>
      rename_i c rest
      have alone : Bland [c] := bland_simples (List.forall_mem_singleton.mpr simple)
      rw [List.flatMap_cons, Lexeme.text, List.singleton_append]
      cases blank : isBlank c with
      | true =>
          rw [widenBlanks, if_pos blank]
          exact inductionHypothesis solid (escape.imp_right fun both => ⟨both.1, rfl⟩) solidPending
      | false =>
          have next : Preserved _ (classes ([] ++ widenBlanks limits false _)) :=
            inductionHypothesis solid (Or.inl rfl) (by decide)
          by_cases mark : c = '?' ∧ inRun = true
          · obtain ⟨rfl, rfl⟩ := mark
            have passed : widenBlanks limits true ('?' :: rest.flatMap Lexeme.text) =
                Pattern.space 0 limits ++ widenBlanks limits false (rest.flatMap Lexeme.text) := rfl
            rw [passed, ← List.append_assoc]
            exact next.behind (bland_space escape 0)
          · have passed : widenBlanks limits inRun (c :: rest.flatMap Lexeme.text) =
                gap limits inRun ++ c :: widenBlanks limits false (rest.flatMap Lexeme.text) := by
              cases inRun with
              | false => exact widenBlanks_cons blank _
              | true => exact widenBlanks_gap blank (fun same => mark ⟨same, rfl⟩) true _
            rw [passed, ← List.append_assoc]
            exact (next.behind alone).behind (bland_gap escape)

/-! ## Stretch by stretch -/

/-- What becomes of a segment when words and then blanks are widened. -/
def Segment.rewritten (limits : Limits) (segment : Segment) : Expr :=
  widenBlanks limits false (segment.widened limits)

theorem widenBlanks_bracket (text inner : List Char) :
    widenBlanks limits false (text ++ '[' :: inner) =
      widenBlanks limits false text ++ widenBlanks limits false ('[' :: inner) := by
  rw [widenBlanks_append rfl (by decide), widenBlanks_cons (c := '[') rfl]

theorem widenBlanks_class
    {text : List Char}
    (ends : text.getLast? = some ']')
    (rest : List Char) :
    widenBlanks limits false (text ++ rest) =
      widenBlanks limits false text ++ widenBlanks limits false rest := by
  obtain ⟨inner, rfl⟩ := List.getLast?_eq_some_iff.mp ends
  rw [List.append_assoc, List.singleton_append, widenBlanks_append rfl (by decide),
    widenBlanks_append rfl (by decide) false inner [], List.append_assoc]
  rfl

/-- Blanks are replaced in one stretch without a look at the others. -/
theorem widenBlanks_segments
    {units : List Lexeme}
    {front : List Char}
    {more : List Segment}
    (written : Written units)
    (cut : segmentsOf units = ⟨front, false⟩ :: more)
    (text : List Char) :
    widenBlanks limits false (text ++ more.flatMap (Segment.widened limits)) =
      widenBlanks limits false text ++ more.flatMap (Segment.rewritten limits) := by
  induction written generalizing front more text with
  | nil =>
      cases cut
      rw [List.flatMap_nil, List.append_nil, List.flatMap_nil, List.append_nil]
  | lone =>
      cases cut
      rw [List.flatMap_nil, List.append_nil, List.flatMap_nil, List.append_nil]
  | openClass opened =>
      rename_i inner
      cases cut
      have last : ∀ become : Segment → List Char, become ⟨[], false⟩ = [] →
          (⟨'[' :: inner, true⟩ :: segmentsOf []).flatMap become = become ⟨'[' :: inner, true⟩ :=
        fun become none => by rw [List.flatMap_cons, segmentsOf, List.flatMap_singleton, none,
          List.append_nil]
      rw [Lexeme.text, last (Segment.widened limits) rfl, last (Segment.rewritten limits) rfl]
      exact widenBlanks_bracket text inner
  | escape c written inductionHypothesis =>
      obtain ⟨next, others, behind⟩ := exists_segmentsOf_eq _
      rw [segmentsOf_text rfl behind] at cut
      cases cut
      exact inductionHypothesis behind text
  | other simple written inductionHypothesis =>
      obtain ⟨next, others, behind⟩ := exists_segmentsOf_eq _
      rw [segmentsOf_text rfl behind] at cut
      cases cut
      exact inductionHypothesis behind text
  | charClass isClass written inductionHypothesis =>
      rename_i inside spaced rest
      obtain ⟨next, others, behind⟩ := exists_segmentsOf_eq rest
      rw [segmentsOf_class rfl, behind] at cut
      cases cut
      have ends := isClass.ends
      obtain ⟨inner, rfl⟩ := isClass.starts
      have class' : Segment.widened limits ⟨'[' :: inner, true⟩ = '[' :: inner := rfl
      rw [List.flatMap_cons, List.flatMap_cons, List.flatMap_cons, List.flatMap_cons, Lexeme.text,
        class', List.cons_append, widenBlanks_bracket, ← List.cons_append, widenBlanks_class ends,
        inductionHypothesis behind]
      rfl

/-- The inline form is put together from what becomes of the stretches of a pattern. -/
theorem widen_eq_segments (pattern : List Char) :
    widen limits pattern = (segments (core pattern)).flatMap (Segment.rewritten limits) := by
  obtain ⟨front, more, cut⟩ := exists_segmentsOf_eq (lexemes (core pattern))
  have spelled : widenWords limits (core pattern) =
      (segments (core pattern)).flatMap (Segment.widened limits) := rfl
  rw [widen, spelled, segments, cut, List.flatMap_cons, List.flatMap_cons,
    widenBlanks_segments (written_lexemes _) cut]
  rfl

/-- A class is changed if there is a blank in it, and left alone if there is none. -/
theorem Segment.rewritten_eq_iff
    {segment : Segment}
    (isClass : segment.isClass = true) :
    segment.rewritten limits = segment.text ↔ Solid segment.text := by
  rw [Segment.rewritten, Segment.widened, if_pos isClass]
  exact ⟨fun same => same ▸ solid_widenBlanks false segment.text, widenBlanks_of_solid⟩

theorem classes_widen
    {pattern : List Char}
    (solid : ∀ text ∈ classes (core pattern), Solid text) :
    (classes (core pattern)).Sublist (classes (widen limits pattern)) := by
  let words := widenWords limits (core pattern)
  have ofWords : Preserved (classes (core pattern)) (classes words) := preserved_widenWords _
  have solidWords : ∀ text ∈ classes words, Solid text :=
    fun text member => (ofWords.others text member).elim (solid text) id
  have ofBlanks : Preserved (classes words)
      (classes ([] ++ widenBlanks limits false ((lexemes words).flatMap Lexeme.text))) :=
    preserved_widenBlanks (written_lexemes words) solidWords (Or.inl rfl)
  rw [flatMap_lexemes] at ofBlanks
  exact ofWords.inOrder.trans ofBlanks.inOrder

/-- In an accepted pattern, the stretches between classes and the classes are rewritten one by one,
a class is rewritten to itself just when no blank is in it, and all classes of the pattern without
its loose edges are classes of the inline form, in the same order, just when that is so for each
of them. -/
theorem compile_keeps_classes_iff
    {pattern : String}
    {made : Compiled}
    (compiled : compile limits pattern = .ok made) :
    let inner := core pattern.toList
    made.body = (segments inner).flatMap (Segment.rewritten limits) ∧
      (∀ segment ∈ segments inner, segment.isClass = true →
        (segment.rewritten limits = segment.text ↔ Solid segment.text)) ∧
      ((classes inner).Sublist (classes made.body) ↔ ∀ text ∈ classes inner, Solid text) := by
  intro inner
  rw [(spec_of_compile compiled).1]
  refine ⟨widen_eq_segments _, fun segment _ isClass => Segment.rewritten_eq_iff isClass, ?_, ?_⟩
  · intro kept text member
    exact (solid_widenBlanks false _).of_mem_classes (kept.subset member)
  · exact classes_widen

/-- A pattern with a class of a bracket, a star, a dot and a plus, and one with an escaped bracket,
between blanks and open words. -/
def classSample : String :=
  ".*Foo []*.+] .* bar?[^\\]x] "

theorem compile_keeps_classes_iff_sample :
    ∃ made, compile {} classSample = .ok made ∧
      classes (core classSample.toList) = ["[]*.+]".toList, "[^\\]x]".toList] ∧
      (classes (core classSample.toList)).Sublist (classes made.body) := by
  have accepted : (compile {} classSample).toOption.isSome = true := by decide +kernel
  obtain ⟨made, some⟩ := Option.isSome_iff_exists.mp accepted
  have compiled := eq_ok_of_toOption some
  refine ⟨made, compiled, by decide +kernel, ?_⟩
  exact (compile_keeps_classes_iff compiled).2.2.mpr (by decide +kernel)

-- An escaped blank is no reason to refuse a pattern, but the class does not survive it.
example :
    findings "x[a\\ b]".toList = [] ∧
      classes (widen {} "x[a\\ b]".toList) =
        ["[a\\[\\s*/#\\u00b7\\u00a7\\u00ad\\u00b6\\u00a0]".toList] := by
  decide +kernel

end NoticeScan.Pattern
