import NoticeScan.Pattern.Lexeme
import NoticeScan.Proofs.Within

/-!
# Brackets

The parentheses that are not escaped and stand in no class or comment open and close the groups of
an expression. An expression is tight if every one of them has its counterpart, none is left open
at the end, and no group has a number or a name. A tight expression is read in a group of a longer
one as it is read by itself, since nothing in it can reach beyond the parenthesis of the group.
-/

namespace NoticeScan.Regex

open NoticeScan.Pattern

/-! ## Tight expressions -/

/-- What is behind the parenthesis that ends a comment. -/
def commentTail : List Char → Option (List Char)
  | [] => none
  | '\\' :: _ :: rest => commentTail rest
  | c :: rest => if c = ')' then some rest else commentTail rest

/-- What is behind the bracket that ends a class. -/
def classBehind (text : List Char) : Option (List Char) :=
  (classTail (classHead text).2).map fun (_, _, behind) => behind

/-- What is behind the sign of a group or a comment, and how many groups are open there. A group
that has a number or a name, or asks for one, is refused. -/
def openingTail (depth : Nat) : List Char → Option (Nat × List Char)
  | '?' :: '#' :: rest => (commentTail rest).map (depth, ·)
  | '?' :: 'P' :: _ => none
  | '?' :: '(' :: _ => none
  | '?' :: rest => some (depth + 1, rest)
  | _ => none

/-- What is behind an escape, a class, a parenthesis or any other character, and how many groups
are open there. -/
def unitTail (depth : Nat) (c : Char) (rest : List Char) : Option (Nat × List Char) :=
  if c = '\\' then
    match rest with
    | [] => none
    | _ :: behind => some (depth, behind)
  else if c = '[' then
    (classBehind rest).map (depth, ·)
  else if c = '(' then
    openingTail depth rest
  else if c = ')' then
    match depth with
    | 0 => none
    | before + 1 => some (before, rest)
  else
    some (depth, rest)

/-- Whether a text closes as many groups as are open, read in a number of steps. -/
def tightIn : Nat → Nat → List Char → Bool
  | _, depth, [] => depth == 0
  | 0, _, _ :: _ => false
  | steps + 1, depth, c :: rest =>
      (unitTail depth c rest).any fun (after, behind) => tightIn steps after behind

/-- Whether a text closes as many groups as are open, and those that it opens itself. -/
def tight (depth : Nat) (text : List Char) : Bool :=
  tightIn text.length depth text

theorem suffix_commentTail
    {text behind : List Char}
    (ends : commentTail text = some behind) :
    behind <:+ text := by
  fun_induction commentTail text with
  | case1 => cases ends
  | case2 c rest inductionHypothesis =>
      have escape : rest <:+ '\\' :: c :: rest := (List.suffix_cons c rest).trans (List.suffix_cons _ _)
      exact (inductionHypothesis ends).trans escape
  | case3 rest _ =>
      cases ends
      exact List.suffix_cons _ _
  | case4 c rest _ _ inductionHypothesis =>
      exact (inductionHypothesis ends).trans (List.suffix_cons c rest)

theorem suffix_classBehind
    {text behind : List Char}
    (ends : classBehind text = some behind) :
    behind <:+ text := by
  obtain ⟨⟨tail, spaced, last⟩, found, rfl⟩ := Option.map_eq_some_iff.mp ends
  refine ⟨(classHead text).1 ++ tail, ?_⟩
  rw [List.append_assoc, classTail_append found, classHead_append]

theorem length_openingTail
    {depth after : Nat}
    {text behind : List Char}
    (ends : openingTail depth text = some (after, behind)) :
    behind.length ≤ text.length := by
  unfold openingTail at ends
  split at ends
  · obtain ⟨last, found, same⟩ := Option.map_eq_some_iff.mp ends
    cases same
    have shorter := (suffix_commentTail found).length_le
    simp only [List.length_cons]
    omega
  · cases ends
  · cases ends
  · cases ends
    exact Nat.le_succ _
  · cases ends

theorem length_unitTail
    {depth after : Nat}
    {c : Char}
    {rest behind : List Char}
    (ends : unitTail depth c rest = some (after, behind)) :
    behind.length ≤ rest.length := by
  unfold unitTail at ends
  split_ifs at ends
  · cases rest with
    | nil => cases ends
    | cons d more =>
        cases ends
        exact Nat.le_succ _
  · obtain ⟨last, found, same⟩ := Option.map_eq_some_iff.mp ends
    cases same
    exact (suffix_classBehind found).length_le
  · exact length_openingTail ends
  · cases depth with
    | zero => cases ends
    | succ before =>
        cases ends
        exact Nat.le_refl _
  · cases ends
    exact Nat.le_refl _

theorem tightIn_more
    {steps more depth : Nat}
    {text : List Char}
    (enough : text.length ≤ steps)
    (le : steps ≤ more) :
    tightIn more depth text = tightIn steps depth text := by
  induction steps generalizing more depth text with
  | zero =>
      obtain rfl := List.eq_nil_of_length_eq_zero (Nat.le_zero.mp enough)
      cases more <;> rfl
  | succ steps inductionHypothesis =>
      obtain ⟨more, rfl⟩ : ∃ k, more = k + 1 := ⟨more - 1, by omega⟩
      cases text with
      | nil => rfl
      | cons c rest =>
          rw [tightIn, tightIn]
          cases ends : unitTail depth c rest with
          | none => rfl
          | some found =>
              have shorter := length_unitTail ends
              have few : found.2.length ≤ steps :=
                Nat.le_trans shorter (Nat.le_of_succ_le_succ enough)
              exact inductionHypothesis few (Nat.le_of_succ_le_succ le)

theorem tight_cons
    (depth : Nat)
    (c : Char)
    (rest : List Char) :
    tight depth (c :: rest) =
      (unitTail depth c rest).any fun (after, behind) => tight after behind := by
  rw [tight, List.length_cons, tightIn]
  cases ends : unitTail depth c rest with
  | none => rfl
  | some found => exact tightIn_more (Nat.le_refl _) (length_unitTail ends)

/-- A sign that has no part in brackets. -/
def isPlainSign (c : Char) : Bool :=
  !(['\\', '[', '(', ')'].contains c)

theorem isPlainSign_iff
    {c : Char} :
    isPlainSign c = true ↔ c ≠ '\\' ∧ c ≠ '[' ∧ c ≠ '(' ∧ c ≠ ')' := by
  simp [isPlainSign]

theorem isPlainSign_of_isInner
    {c : Char}
    (inner : isInner c = true) :
    isPlainSign c = true := by
  rw [isPlainSign_iff]
  refine ⟨?_, ?_, ?_, ?_⟩ <;> rintro rfl <;> cases inner

theorem tight_plain
    {c : Char}
    (plain : isPlainSign c = true)
    (depth : Nat)
    (rest : List Char) :
    tight depth (c :: rest) = tight depth rest := by
  obtain ⟨noEscape, noBracket, noOpening, noClosing⟩ := isPlainSign_iff.mp plain
  have passed : unitTail depth c rest = some (depth, rest) := by
    unfold unitTail
    rw [if_neg noEscape, if_neg noBracket, if_neg noOpening, if_neg noClosing]
  rw [tight_cons, passed]
  rfl

theorem tight_escape
    (depth : Nat)
    (c : Char)
    (rest : List Char) :
    tight depth ('\\' :: c :: rest) = tight depth rest := by
  rw [tight_cons]
  rfl

theorem tight_takes
    {input behind : Input}
    (takes : input.Takes behind)
    (depth : Nat) :
    tight depth input.rest = tight depth behind.rest := by
  obtain ⟨taken, inner, split⟩ := takes
  rw [split]
  clear split
  induction taken with
  | nil => rfl
  | cons c rest inductionHypothesis =>
      obtain ⟨here, later⟩ := List.forall_mem_cons.mp inner
      rw [List.cons_append, tight_plain (isPlainSign_of_isInner here)]
      exact inductionHypothesis later

theorem ne_backslash_of_tight
    {depth : Nat}
    {text : List Char}
    (isTight : tight depth text = true) :
    text ≠ ['\\'] := by
  rintro rfl
  cases isTight

theorem firm_of_tight
    {depth : Nat}
    {input : Input}
    (isTight : tight depth input.rest = true) :
    input.Firm := by
  intro behind takes
  rw [tight_takes takes] at isTight
  exact ne_backslash_of_tight isTight

/-! ## Tokens -/

namespace Input

variable {input behind : Input} {token : Token}

/-- A token is what an input starts with. -/
theorem rest_of_next?
    (sound : input.Sound)
    (next : input.next? = .ok (some (token, behind))) :
    input.rest = token.text ++ behind.rest ∧ token ≠ .plain '\\' := by
  unfold next? at next
  split at next
  · cases next
  · rename_i first peeked
    cases dropped : input.drop first.width with
    | error error => simp [dropped] at next
    | ok after =>
        simp only [dropped, Except.ok.injEq, Option.some.injEq, Prod.mk.injEq] at next
        obtain ⟨rfl, rfl⟩ := next
        rw [drop_eq dropped]
        unfold peek? at peeked
        split at peeked
        · cases peeked
        · rename_i starts
          cases peeked
          rw [starts]
          exact ⟨rfl, by simp⟩
        · rename_i c rest noEscape starts
          cases peeked
          refine ⟨by rw [starts]; rfl, ?_⟩
          intro same
          cases same
          cases rest with
          | nil => exact sound starts
          | cons d others => exact noEscape d others rfl rfl

/-- The first token of a text. -/
theorem exists_token
    (sound : input.Sound)
    (some : input.rest ≠ []) :
    ∃ token rest, input.rest = token.text ++ rest ∧ token ≠ .plain '\\' ∧
      input.peek? = .some token := by
  obtain ⟨c, rest, starts⟩ := List.exists_cons_of_ne_nil some
  by_cases escape : c = '\\'
  · subst escape
    cases rest with
    | nil => exact absurd starts sound
    | cons d others =>
        refine ⟨.escaped d, others, starts, by simp, ?_⟩
        unfold peek?
        rw [starts]
        rfl
  · exact ⟨.plain c, rest, starts, by simp [escape], peek?_plain starts escape⟩

theorem next?_token
    {rest : List Char}
    (starts : input.rest = token.text ++ rest)
    (noEscape : token ≠ .plain '\\')
    (sound : rest ≠ ['\\']) :
    input.next? = .ok (some (token, ⟨rest, input.pos + token.width⟩)) := by
  cases token with
  | plain c => exact next?_plain starts (fun same => noEscape (congrArg Token.plain same)) sound
  | escaped c =>
      obtain ⟨text, pos⟩ := input
      subst starts
      exact next?_escaped sound pos

end Input

/-! ### Classes -/

/-- What is behind the next bracket that ends a class. -/
def classEnd (text : List Char) : Option (List Char) :=
  (classTail text).map fun (_, _, behind) => behind

/-- What is behind a class of which some members are known: a bracket at its start is one. -/
def classRest (found : List Member) (text : List Char) : Option (List Char) :=
  match text with
  | ']' :: rest => if found.isEmpty then classEnd rest else some rest
  | _ => classEnd text

theorem classEnd_escape
    (c : Char)
    (rest : List Char) :
    classEnd ('\\' :: c :: rest) = classEnd rest := by
  unfold classEnd
  rw [classTail, Option.map_map]
  rfl

theorem classEnd_plain
    {c : Char}
    (noEscape : c ≠ '\\')
    (noBracket : c ≠ ']')
    (rest : List Char) :
    classEnd (c :: rest) = classEnd rest := by
  unfold classEnd
  rw [classTail, if_neg noEscape, Option.map_map]
  · rfl
  · rintro rfl
    exact noBracket rfl
  · rintro d others rfl
    exact absurd rfl noEscape

theorem classEnd_token
    {token : Token}
    (noEscape : token ≠ .plain '\\')
    (noBracket : token ≠ .plain ']')
    (rest : List Char) :
    classEnd (token.text ++ rest) = classEnd rest := by
  cases token with
  | escaped c => exact classEnd_escape c rest
  | plain c =>
      exact classEnd_plain (fun same => noEscape (congrArg Token.plain same))
        (fun same => noBracket (congrArg Token.plain same)) rest

theorem classEnd_takes
    {input behind : Input}
    (takes : input.Takes behind) :
    classEnd input.rest = classEnd behind.rest := by
  obtain ⟨taken, inner, split⟩ := takes
  rw [split]
  clear split
  induction taken with
  | nil => rfl
  | cons c rest inductionHypothesis =>
      obtain ⟨here, later⟩ := List.forall_mem_cons.mp inner
      have noEscape : c ≠ '\\' := by
        rintro rfl
        cases here
      have noBracket : c ≠ ']' := by
        rintro rfl
        cases here
      rw [List.cons_append, classEnd_plain noEscape noBracket]
      exact inductionHypothesis later

theorem classRest_token
    {found : List Member}
    {token : Token}
    (noEscape : token ≠ .plain '\\')
    (goesOn : ¬(token = .plain ']' ∧ found ≠ []))
    (rest : List Char) :
    classRest found (token.text ++ rest) = classEnd rest := by
  by_cases bracket : token = .plain ']'
  · subst bracket
    have none : found = [] := by
      by_contra some
      exact goesOn ⟨rfl, some⟩
    subst none
    rfl
  · unfold classRest
    split
    · rename_i starts
      cases token with
      | plain c =>
          cases starts
          exact absurd rfl bracket
      | escaped c => cases starts
    · exact classEnd_token noEscape bracket rest

theorem classRest_of_ne_nil
    {found : List Member}
    (some : found ≠ [])
    (text : List Char) :
    classRest found text = classEnd text := by
  unfold classRest
  split
  · rw [List.isEmpty_eq_false_iff.mpr some]
    rfl
  · rfl

theorem classBehind_eq
    (text : List Char) :
    classBehind text =
      match text with
      | '^' :: inside => classRest [] inside
      | _ => classRest [] text := by
  unfold classBehind classHead
  split
  · rfl
  · rename_i rest noBracket
    change classEnd rest = classRest [] rest
    unfold classRest
    split
    · exact (noBracket _ rfl).elim
    · rfl
  · rfl
  · rename_i noCaret noBracket
    split
    · exact absurd rfl (noCaret _)
    · unfold classRest
      split
      · exact absurd rfl (noBracket _)
      · rfl

/-- A single entry or a range of a class, or an entry with a hyphen before the closing bracket; the
members of the class that this brings, whether the class has ended, and the input behind it. -/
def classSpan (start : Nat) (token : Token) (input : Input) :
    Except Error (List Member × Bool × Input) := do
  let (low, behind) ← classEntry token input
  match ← behind.take? '-' with
  | none => .ok ([low], false, behind)
  | some dashed =>
      match ← dashed.next? with
      | none => Fault.unterminatedClass.at start
      | some (other, last) =>
          if other = .plain ']' then
            .ok ([.point '-'.toNat, low], true, last)
          else
            let (high, close) ← classEntry other last
            let range ← classRange low high token other close
            .ok ([range], false, close)

theorem classBodyFrom_eq
    (start steps : Nat)
    (found : List Member)
    (input : Input) :
    classBodyFrom start (steps + 1) found input =
      input.next? >>= fun first =>
        match first with
        | none => Fault.unterminatedClass.at start
        | some (token, inside) =>
            if token = .plain ']' && !found.isEmpty then
              .ok (found.reverse, inside)
            else
              classSpan start token inside >>= fun (members, closed, behind) =>
                if closed then .ok ((members ++ found).reverse, behind)
                else classBodyFrom start steps (members ++ found) behind := by
  rw [classBodyFrom]
  refine bind_congr fun first => ?_
  cases first with
  | none => rfl
  | some step =>
      obtain ⟨token, inside⟩ := step
      dsimp only
      split
      · rfl
      · unfold classSpan
        rw [bind_assoc]
        refine bind_congr fun entry => ?_
        obtain ⟨low, behind⟩ := entry
        dsimp only
        rw [bind_assoc]
        refine bind_congr fun dash => ?_
        cases dash with
        | none => rfl
        | some dashed =>
            dsimp only
            rw [bind_assoc]
            refine bind_congr fun second => ?_
            cases second with
            | none => rfl
            | some step =>
                obtain ⟨other, last⟩ := step
                dsimp only
                split
                · rfl
                · rw [bind_assoc]
                  refine bind_congr fun entry => ?_
                  obtain ⟨high, close⟩ := entry
                  dsimp only
                  rw [bind_assoc]
                  exact bind_congr fun range => rfl

/-- Where a class goes on or ends behind an entry or a range. -/
theorem classSpan_ends
    {start : Nat}
    {token : Token}
    {members : List Member}
    {closed : Bool}
    {input behind : Input}
    (sound : input.Sound)
    (read : classSpan start token input = .ok (members, closed, behind)) :
    behind.Sound ∧ behind.rest.length ≤ input.rest.length ∧ members ≠ [] ∧
      classEnd input.rest = if closed then some behind.rest else classEnd behind.rest := by
  unfold classSpan at read
  obtain ⟨⟨low, after⟩, entry, read⟩ := bind_eq_ok.mp read
  obtain ⟨afterSound, shortAfter, -⟩ :=
    stable_classEntry 0 quiet_nil token input low after sound entry
  rw [classEnd_takes ((within_classEntry shut_nil token).takes entry)]
  dsimp only at read
  obtain ⟨dash, taken, read⟩ := bind_eq_ok.mp read
  cases dash with
  | none =>
      cases read
      exact ⟨afterSound, shortAfter, List.cons_ne_nil _ _, rfl⟩
  | some dashed =>
      have dashedSound := (Input.take?_onto 0 quiet_nil.notEscape afterSound taken).1
      have shortDashed := Input.length_take? taken
      rw [classEnd_takes (Input.takes_of_take? rfl taken)]
      obtain ⟨second, next, read⟩ := bind_eq_ok.mp read
      cases second with
      | none => cases read
      | some step =>
          obtain ⟨other, last⟩ := step
          obtain ⟨starts, noEscape⟩ := Input.rest_of_next? dashedSound next
          have lastSound := (Input.next?_onto 0 quiet_nil.notEscape dashedSound next).1
          have shortLast := Input.length_next? next
          dsimp only at read
          split at read
          · rename_i closes
            cases read
            refine ⟨lastSound, by omega, List.cons_ne_nil _ _, ?_⟩
            rw [starts, closes]
            rfl
          · rename_i goesOn
            obtain ⟨⟨high, close⟩, entry, read⟩ := bind_eq_ok.mp read
            obtain ⟨closeSound, shortClose, -⟩ :=
              stable_classEntry 0 quiet_nil other last high close lastSound entry
            obtain ⟨range, -, read⟩ := bind_eq_ok.mp read
            cases read
            have shortest : close.rest.length ≤ input.rest.length := by omega
            refine ⟨closeSound, shortest, List.cons_ne_nil _ _, ?_⟩
            rw [starts, classEnd_token noEscape goesOn,
              classEnd_takes ((within_classEntry shut_nil other).takes entry)]
            rfl

theorem classRest_of_classBodyFrom
    {start steps : Nat}
    {found members : List Member}
    {input behind : Input}
    (sound : input.Sound)
    (enough : input.rest.length < steps)
    (read : classBodyFrom start steps found input = .ok (members, behind)) :
    classRest found input.rest = some behind.rest := by
  induction steps generalizing found input with
  | zero => omega
  | succ steps inductionHypothesis =>
      rw [classBodyFrom_eq] at read
      obtain ⟨first, next, read⟩ := bind_eq_ok.mp read
      cases first with
      | none => cases read
      | some step =>
          obtain ⟨token, inside⟩ := step
          obtain ⟨starts, noEscape⟩ := Input.rest_of_next? sound next
          have insideSound := (Input.next?_onto 0 quiet_nil.notEscape sound next).1
          have shorter := Input.length_next? next
          dsimp only at read
          split at read
          · rename_i closes
            cases read
            rw [Bool.and_eq_true, decide_eq_true_eq, Bool.not_eq_true'] at closes
            obtain ⟨rfl, some⟩ := closes
            rw [starts]
            exact if_neg (Bool.eq_false_iff.mp some)
          · rename_i goesOn
            rw [Bool.and_eq_true, decide_eq_true_eq, Bool.not_eq_true',
              List.isEmpty_eq_false_iff] at goesOn
            obtain ⟨⟨more, closed, after⟩, span, read⟩ := bind_eq_ok.mp read
            obtain ⟨afterSound, shortAfter, some, ends⟩ := classSpan_ends insideSound span
            rw [starts, classRest_token noEscape goesOn, ends]
            cases closed with
            | true =>
                cases read
                rfl
            | false =>
                rw [← classRest_of_ne_nil (List.append_ne_nil_of_left_ne_nil some found)]
                exact inductionHypothesis afterSound (by omega) read

theorem firm_of_classEnd
    {input : Input}
    {rest : List Char}
    (ends : classEnd input.rest = some rest) :
    input.Firm := by
  intro behind takes escape
  rw [classEnd_takes takes, escape] at ends
  cases ends

theorem classEnd_ne
    {text rest : List Char}
    (ends : classEnd text = some rest) :
    text ≠ [] ∧ text ≠ ['\\'] := by
  refine ⟨?_, ?_⟩ <;> rintro rfl <;> cases ends

theorem classRest_ne
    {found : List Member}
    {text rest : List Char}
    (ends : classRest found text = some rest) :
    text ≠ [] ∧ text ≠ ['\\'] := by
  refine ⟨?_, ?_⟩ <;> rintro rfl <;> cases ends

theorem classBehind_ne
    {text rest : List Char}
    (ends : classBehind text = some rest) :
    text ≠ [] ∧ text ≠ ['\\'] := by
  refine ⟨?_, ?_⟩ <;> rintro rfl <;> cases ends

theorem commentTail_ne
    {text rest : List Char}
    (ends : commentTail text = some rest) :
    text ≠ [] ∧ text ≠ ['\\'] := by
  refine ⟨?_, ?_⟩ <;> rintro rfl <;> cases ends

theorem classBehind_caret (inside : List Char) :
    classBehind ('^' :: inside) = classRest [] inside :=
  classBehind_eq _

theorem classBehind_of_ne
    {text : List Char}
    (noCaret : ∀ inside, text ≠ '^' :: inside) :
    classBehind text = classRest [] text := by
  rw [classBehind_eq]
  split
  · exact absurd rfl (noCaret _)
  · rfl

theorem classBehind_of_classBody
    {negated : Bool}
    {members : List Member}
    {input behind : Input}
    (sound : input.Sound)
    (read : classBody input = .ok (negated, members, behind)) :
    classBehind input.rest = some behind.rest := by
  unfold classBody at read
  obtain ⟨caret, taken, read⟩ := bind_eq_ok.mp read
  cases caret with
  | some inside =>
      obtain ⟨⟨found, last⟩, body, read⟩ := bind_eq_ok.mp read
      cases read
      have insideSound := (Input.take?_onto 0 quiet_nil.notEscape sound taken).1
      rw [Input.rest_of_take? rfl taken, classBehind_caret]
      exact classRest_of_classBodyFrom insideSound (Nat.lt_succ_self _) body
  | none =>
      obtain ⟨⟨found, last⟩, body, read⟩ := bind_eq_ok.mp read
      cases read
      rw [classBehind_of_ne (Input.rest_ne_of_take? rfl taken)]
      exact classRest_of_classBodyFrom sound (Nat.lt_succ_self _) body

theorem Shut.notEscape
    {post : List Char}
    (shut : Shut post) :
    post ≠ ['\\'] := by
  rintro rfl
  cases shut _ _ rfl

section Within

variable {post : List Char} {shift : Nat}

theorem within_classSpan
    (shut : Shut post)
    {start : Nat}
    (otherStart : Nat)
    {token : Token}
    {members : List Member}
    {closed : Bool}
    {input last : Input}
    {rest : List Char}
    (ends : classEnd input.rest = some rest)
    (sound : rest ≠ ['\\'])
    (read : classSpan start token (input.onto post shift) = .ok (members, closed, last)) :
    ∃ behind, last = behind.onto post shift ∧
      classSpan otherStart token input = .ok (members, closed, behind) := by
  have ready := firm_of_classEnd ends
  unfold classSpan at read ⊢
  obtain ⟨⟨low, there⟩, entry, read⟩ := bind_eq_ok.mp read
  obtain ⟨after, takes, rfl, entryAlone⟩ := within_classEntry shut token _ _ _ entry
  rw [classEnd_takes takes] at ends
  dsimp only at read
  obtain ⟨dash, taken, read⟩ := bind_eq_ok.mp read
  cases dash with
  | none =>
      cases read
      have noDash := Input.take?_within_none shut rfl taken
      exact ⟨after, rfl,
        bind_eq_ok.mpr ⟨_, entryAlone ready, bind_eq_ok.mpr ⟨none, noDash, rfl⟩⟩⟩
  | some there =>
      obtain ⟨dashed, takesDash, rfl, dashAlone⟩ := Input.take?_within shut rfl taken
      have readyAfter := firm_of_classEnd ends
      rw [classEnd_takes takesDash] at ends
      obtain ⟨nonempty, dashedSound⟩ := classEnd_ne ends
      obtain ⟨other, text, starts, noEscape, -⟩ := Input.exists_token dashedSound nonempty
      rw [starts] at ends
      have textSound : text ≠ ['\\'] := by
        by_cases closes : other = .plain ']'
        · rw [closes] at ends
          cases ends
          exact sound
        · rw [classEnd_token noEscape closes] at ends
          exact (classEnd_ne ends).2
      have next := Input.next?_token starts noEscape textSound
      obtain ⟨-, onto⟩ := Input.next?_onto shift shut.notEscape dashedSound next
      dsimp only at read
      rw [onto] at read
      dsimp only [bind, Except.bind] at read
      by_cases closes : other = .plain ']'
      · rw [if_pos closes] at read
        cases read
        exact ⟨_, rfl, bind_eq_ok.mpr ⟨_, entryAlone ready, bind_eq_ok.mpr
          ⟨_, dashAlone readyAfter, bind_eq_ok.mpr ⟨_, next, if_pos closes⟩⟩⟩⟩
      · rw [if_neg closes] at read
        rw [classEnd_token noEscape closes] at ends
        have readyOther : Input.Firm ⟨text, dashed.pos + other.width⟩ := firm_of_classEnd ends
        obtain ⟨⟨high, there⟩, entry, read⟩ := bind_eq_ok.mp read
        obtain ⟨close, takesClose, rfl, highAlone⟩ := within_classEntry shut other _ _ _ entry
        obtain ⟨range, ranged, read⟩ := bind_eq_ok.mp read
        cases read
        refine ⟨close, rfl, bind_eq_ok.mpr ⟨_, entryAlone ready, bind_eq_ok.mpr
          ⟨_, dashAlone readyAfter, bind_eq_ok.mpr ⟨_, next, ?_⟩⟩⟩⟩
        dsimp only
        rw [if_neg closes]
        exact bind_eq_ok.mpr ⟨_, highAlone readyOther, bind_eq_ok.mpr
          ⟨range, classRange_onto ranged close, rfl⟩⟩

/-- The members of a class that ends within a text. -/
theorem within_classBodyFrom
    (shut : Shut post)
    {start steps more : Nat}
    (otherStart : Nat)
    {found members : List Member}
    {input last : Input}
    {rest : List Char}
    (ends : classRest found input.rest = some rest)
    (sound : rest ≠ ['\\'])
    (few : input.rest.length + post.length < steps)
    (enough : input.rest.length < more)
    (read : classBodyFrom start steps found (input.onto post shift) = .ok (members, last)) :
    ∃ behind, last = behind.onto post shift ∧
      classBodyFrom otherStart more found input = .ok (members, behind) := by
  induction steps generalizing more found input with
  | zero => omega
  | succ steps inductionHypothesis =>
      obtain ⟨more, rfl⟩ : ∃ k, more = k + 1 := ⟨more - 1, by omega⟩
      obtain ⟨nonempty, inputSound⟩ := classRest_ne ends
      obtain ⟨token, text, starts, noEscape, -⟩ := Input.exists_token inputSound nonempty
      rw [starts] at ends
      rw [classBodyFrom_eq] at read ⊢
      by_cases closes : token = .plain ']' ∧ found ≠ []
      · have same : text = rest := by
          rw [closes.1, classRest_of_ne_nil closes.2] at ends
          exact Option.some.inj ends
        subst same
        have next := Input.next?_token starts noEscape sound
        obtain ⟨-, onto⟩ := Input.next?_onto shift shut.notEscape inputSound next
        have isClosing : (decide (token = .plain ']') && !found.isEmpty) = true := by
          rw [Bool.and_eq_true, decide_eq_true_eq, Bool.not_eq_true', List.isEmpty_eq_false_iff]
          exact closes
        rw [onto] at read
        dsimp only [bind, Except.bind] at read
        rw [if_pos isClosing] at read
        cases read
        exact ⟨_, rfl, bind_eq_ok.mpr ⟨_, next, if_pos isClosing⟩⟩
      · rw [classRest_token noEscape closes] at ends
        have next := Input.next?_token starts noEscape (classEnd_ne ends).2
        obtain ⟨insideSound, onto⟩ := Input.next?_onto shift shut.notEscape inputSound next
        have goesOn : ¬(decide (token = .plain ']') && !found.isEmpty) = true := by
          rw [Bool.and_eq_true, decide_eq_true_eq, Bool.not_eq_true', List.isEmpty_eq_false_iff]
          exact closes
        have shorter := Input.length_next? next
        rw [onto] at read
        dsimp only [bind, Except.bind] at read
        rw [if_neg goesOn] at read
        obtain ⟨⟨brought, closed, there⟩, span, read⟩ := bind_eq_ok.mp read
        obtain ⟨after, rfl, alone⟩ := within_classSpan shut otherStart ends sound span
        obtain ⟨-, shortAfter, some, further⟩ := classSpan_ends insideSound alone
        suffices done : ∃ behind, last = behind.onto post shift ∧
            (if closed then .ok ((brought ++ found).reverse, after)
              else classBodyFrom otherStart more (brought ++ found) after) =
              Except.ok (members, behind) by
          obtain ⟨behind, rfl, done⟩ := done
          refine ⟨behind, rfl, bind_eq_ok.mpr ⟨_, next, ?_⟩⟩
          dsimp only
          rw [if_neg goesOn]
          exact bind_eq_ok.mpr ⟨_, alone, done⟩
        cases closed with
        | true =>
            cases read
            exact ⟨after, rfl, rfl⟩
        | false =>
            have endsThere : classRest (brought ++ found) after.rest = .some rest := by
              rw [classRest_of_ne_nil (List.append_ne_nil_of_left_ne_nil some found), ← ends]
              exact further.symm
            exact inductionHypothesis endsThere (by omega) (by omega) read

theorem within_classBody
    (shut : Shut post)
    {negated : Bool}
    {members : List Member}
    {input last : Input}
    {rest : List Char}
    (ends : classBehind input.rest = some rest)
    (sound : rest ≠ ['\\'])
    (read : classBody (input.onto post shift) = .ok (negated, members, last)) :
    ∃ behind, last = behind.onto post shift ∧
      classBody input = .ok (negated, members, behind) := by
  obtain ⟨nonempty, inputSound⟩ := classBehind_ne ends
  unfold classBody at read ⊢
  obtain ⟨caret, taken, read⟩ := bind_eq_ok.mp read
  cases caret with
  | some there =>
      obtain ⟨c, text, starts⟩ := List.exists_cons_of_ne_nil nonempty
      have first : c :: (text ++ post) = '^' :: there.rest := by
        rw [← Input.rest_of_take? rfl taken, Input.onto, starts]
        rfl
      obtain ⟨rfl, -⟩ := List.cons.inj first
      rw [starts, classBehind_caret] at ends
      have caret := Input.take?_plain starts (by decide) (classRest_ne ends).2
      obtain ⟨-, onto⟩ := Input.take?_onto shift shut.notEscape inputSound caret
      rw [onto] at taken
      cases taken
      obtain ⟨⟨found, there⟩, body, read⟩ := bind_eq_ok.mp read
      cases read
      have few : text.length + post.length < (text ++ post).length + 1 := by simp
      obtain ⟨behind, rfl, alone⟩ :=
        within_classBodyFrom shut (input.pos - 1) ends sound few (Nat.lt_succ_self _) body
      exact ⟨behind, rfl, bind_eq_ok.mpr ⟨_, caret, bind_eq_ok.mpr ⟨_, alone, rfl⟩⟩⟩
  | none =>
      have noCaret := Input.take?_within_none shut rfl taken
      rw [classBehind_of_ne (Input.rest_ne_of_take? rfl noCaret)] at ends
      obtain ⟨⟨found, there⟩, body, read⟩ := bind_eq_ok.mp read
      cases read
      have few : input.rest.length + post.length < (input.onto post shift).rest.length + 1 := by
        simp [Input.onto]
      obtain ⟨behind, rfl, alone⟩ :=
        within_classBodyFrom shut (input.pos - 1) ends sound few (Nat.lt_succ_self _) body
      exact ⟨behind, rfl, bind_eq_ok.mpr ⟨none, noCaret, bind_eq_ok.mpr ⟨_, alone, rfl⟩⟩⟩

/-! ### Comments -/

theorem commentTail_token
    {token : Token}
    (noEscape : token ≠ .plain '\\')
    (goesOn : token ≠ .plain ')')
    (rest : List Char) :
    commentTail (token.text ++ rest) = commentTail rest := by
  cases token with
  | escaped c => rfl
  | plain c =>
      have noClosing : c ≠ ')' := fun same => goesOn (congrArg Token.plain same)
      have plain : c ≠ '\\' := fun same => noEscape (congrArg Token.plain same)
      rw [Token.text, List.singleton_append, commentTail, if_neg noClosing]
      rintro d others rfl
      exact absurd rfl plain

theorem commentTail_of_skipPast
    {steps : Nat}
    {input behind : Input}
    (sound : input.Sound)
    (read : input.skipPast ')' steps = .ok (some behind)) :
    commentTail input.rest = some behind.rest := by
  induction steps generalizing input with
  | zero => cases read
  | succ steps inductionHypothesis =>
      unfold Input.skipPast at read
      cases next : input.next? with
      | error error => simp [next] at read
      | ok taken =>
          cases taken with
          | none => simp [next] at read
          | some step =>
              obtain ⟨token, after⟩ := step
              obtain ⟨starts, noEscape⟩ := Input.rest_of_next? sound next
              have afterSound := (Input.next?_onto 0 quiet_nil.notEscape sound next).1
              simp only [next] at read
              split at read
              · rename_i closes
                cases read
                rw [starts, closes]
                rfl
              · rename_i goesOn
                rw [starts, commentTail_token noEscape goesOn]
                exact inductionHypothesis afterSound read

theorem within_skipPast
    (shut : Shut post)
    {steps more : Nat}
    {input last : Input}
    {rest : List Char}
    (ends : commentTail input.rest = some rest)
    (sound : rest ≠ ['\\'])
    (enough : input.rest.length < more)
    (read : (input.onto post shift).skipPast ')' steps = .ok (some last)) :
    ∃ behind, last = behind.onto post shift ∧ input.skipPast ')' more = .ok (some behind) := by
  induction steps generalizing more input with
  | zero => cases read
  | succ steps inductionHypothesis =>
      obtain ⟨more, rfl⟩ : ∃ k, more = k + 1 := ⟨more - 1, by omega⟩
      obtain ⟨nonempty, inputSound⟩ := commentTail_ne ends
      obtain ⟨token, text, starts, noEscape, -⟩ := Input.exists_token inputSound nonempty
      rw [starts] at ends
      unfold Input.skipPast at read ⊢
      by_cases closes : token = .plain ')'
      · have same : text = rest := by
          rw [closes] at ends
          exact Option.some.inj ends
        subst same
        have next := Input.next?_token starts noEscape sound
        obtain ⟨-, onto⟩ := Input.next?_onto shift shut.notEscape inputSound next
        rw [onto] at read
        dsimp only at read
        rw [if_pos closes] at read
        cases read
        rw [next]
        exact ⟨_, rfl, if_pos closes⟩
      · rw [commentTail_token noEscape closes] at ends
        have next := Input.next?_token starts noEscape (commentTail_ne ends).2
        obtain ⟨-, onto⟩ := Input.next?_onto shift shut.notEscape inputSound next
        have shorter := Input.length_next? next
        have few : text.length < more := by
          dsimp only at shorter
          omega
        rw [onto] at read
        dsimp only at read
        rw [if_neg closes] at read
        obtain ⟨behind, rfl, alone⟩ := inductionHypothesis ends few read
        rw [next]
        exact ⟨behind, rfl, (if_neg closes).trans alone⟩

end Within

/-! ## What is asked for in a tight expression -/

/-- Whether an action has to do with groups that have a number or a name. -/
def Action.meetsGroup : Action → Bool
  | .capture _ | .named _ | .branch _ => true
  | _ => false

theorem Action.takesName_eq_false
    {action : Action}
    (groupless : action.meetsGroup = false) :
    action.takesName = false := by
  cases action <;> first | rfl | cases groupless

/-- How many groups are open after an action, unless it closes one where none is open. -/
def Action.after (depth : Nat) : Action → Option Nat
  | .opening _ _ | .capture _ | .look _ _ | .branch _ => some (depth + 1)
  | .close =>
      match depth with
      | 0 => none
      | before + 1 => some before
  | _ => some depth

/-- Whether an action leaves the open groups as they are. -/
def Action.isFlat : Action → Bool
  | .item _ | .repeating _ _ _ | .numbered _ _ => true
  | _ => false

theorem Action.after_of_isFlat
    {action : Action}
    (flat : action.isFlat = true)
    (depth : Nat) :
    action.after depth = some depth := by
  cases action <;> first | rfl | cases flat

theorem Action.meetsGroup_of_isFlat
    {action : Action}
    (flat : action.isFlat = true) :
    action.meetsGroup = false := by
  cases action <;> first | rfl | cases flat

theorem openingTail_sign
    {c : Char}
    (noComment : c ≠ '#')
    (noName : c ≠ 'P')
    (noBranch : c ≠ '(')
    (depth : Nat)
    (rest : List Char) :
    openingTail depth ('?' :: c :: rest) = some (depth + 1, c :: rest) := by
  unfold openingTail
  split
  · rename_i same
    cases same
    exact absurd rfl noComment
  · rename_i same
    cases same
    exact absurd rfl noName
  · rename_i same
    cases same
    exact absurd rfl noBranch
  · rename_i same
    cases same
    rfl
  · rename_i other
    exact (other _ rfl).elim

theorem openingTail_none
    {text : List Char}
    (noQuestion : ∀ rest, text ≠ '?' :: rest)
    (depth : Nat) :
    openingTail depth text = none := by
  unfold openingTail
  split
  · exact absurd rfl (noQuestion _)
  · rfl
  · rfl
  · exact absurd rfl (noQuestion _)
  · rfl

theorem tight_opening
    (depth : Nat)
    (rest : List Char) :
    tight depth ('(' :: rest) =
      (openingTail depth rest).any fun (after, behind) => tight after behind :=
  tight_cons depth '(' rest

theorem tight_sign
    {c : Char}
    (inner : isInner c = true)
    (noComment : c ≠ '#')
    (noName : c ≠ 'P')
    (depth : Nat)
    (rest : List Char) :
    tight depth ('(' :: '?' :: c :: rest) = tight (depth + 1) rest := by
  have noBranch : c ≠ '(' := by
    rintro rfl
    cases inner
  rw [tight_opening, openingTail_sign noComment noName noBranch]
  exact tight_plain (isPlainSign_of_isInner inner) (depth + 1) rest

theorem tight_comment
    (depth : Nat)
    (rest : List Char) :
    tight depth ('(' :: '?' :: '#' :: rest) = (commentTail rest).any (tight depth) := by
  rw [tight_opening, openingTail]
  cases commentTail rest <;> rfl

theorem tight_class
    (depth : Nat)
    (rest : List Char) :
    tight depth ('[' :: rest) = (classBehind rest).any (tight depth) := by
  rw [tight_cons]
  change ((classBehind rest).map (depth, ·)).any _ = _
  cases classBehind rest <;> rfl

theorem isInner_of_flag
    {c : Char}
    (flag : (c == '-' || (InlineFlag.ofLetter? c).isSome) = true) :
    isInner c = true ∧ c ≠ '#' ∧ c ≠ 'P' := by
  rcases Bool.or_eq_true_iff.mp flag with hyphen | letter
  · cases beq_iff_eq.mp hyphen
    decide
  · obtain ⟨known, letter⟩ := Option.isSome_iff_exists.mp letter
    refine ⟨isInner_of_ofLetter? letter, ?_, ?_⟩ <;> rintro rfl <;> cases letter

section Actions

variable {flags : Flags} {token : Token} {action : Action} {input behind last : Input}
  {depth : Nat}

theorem isFlat_lexEscape
    {c : Char}
    (read : lexEscape flags c input = .ok (action, behind)) :
    action.isFlat = true := by
  unfold lexEscape at read
  obtain ⟨⟨escape, there⟩, -, rest⟩ := bind_eq_ok.mp read
  cases escape <;> cases rest <;> rfl

theorem isFlat_lexBounds
    {low high : Nat}
    (read : lexBounds low high input = .ok (action, behind)) :
    action.isFlat = true := by
  unfold lexBounds at read
  obtain ⟨⟨greed, there⟩, -, rest⟩ := bind_eq_ok.mp read
  cases rest
  rfl

theorem isFlat_lexRepeat
    {c : Char}
    (read : lexRepeat flags c input = .ok (action, behind)) :
    action.isFlat = true := by
  unfold lexRepeat at read
  split at read
  · exact isFlat_lexBounds read
  · split at read
    · exact isFlat_lexBounds read
    · split at read
      · exact isFlat_lexBounds read
      · split at read
        · cases read
          rfl
        · obtain ⟨found, -, rest⟩ := bind_eq_ok.mp read
          cases found with
          | none =>
              cases rest
              rfl
          | some found => exact isFlat_lexBounds rest

/-- What is read of an expression opens and closes the groups that its brackets tell of. -/
theorem tight_lexExtension
    (sound : input.Sound)
    (groupless : action.meetsGroup = false)
    (inGroup : ∀ on, action ≠ .everywhere on)
    (read : lexExtension flags token input = .ok (action, behind)) :
    behind.rest <:+ input.rest ∧
      ∀ depth, tight depth ('(' :: '?' :: (token.text ++ input.rest)) =
        (action.after depth).any fun after => tight after behind.rest := by
  unfold lexExtension at read
  split at read
  · have takes := lexNamed_takesName read
    rw [Action.takesName_eq_false groupless] at takes
    cases takes
  · cases read
    exact ⟨List.suffix_rfl, fun depth => tight_sign rfl (by decide) (by decide) depth _⟩
  · cases read
    exact ⟨List.suffix_rfl, fun depth => tight_sign rfl (by decide) (by decide) depth _⟩
  · cases read
    exact ⟨List.suffix_rfl, fun depth => tight_sign rfl (by decide) (by decide) depth _⟩
  · cases read
    exact ⟨List.suffix_rfl, fun depth => tight_sign rfl (by decide) (by decide) depth _⟩
  · have takes := (within_lexBehind shut_nil).takes read
    have looks : ∀ depth, action.after depth = some (depth + 1) := by
      unfold lexBehind at read
      obtain ⟨taken, -, rest⟩ := bind_eq_ok.mp read
      split at rest <;> cases rest <;> exact fun _ => rfl
    refine ⟨takes.suffix, fun depth => ?_⟩
    rw [looks]
    exact (tight_sign rfl (by decide) (by decide) depth _).trans (tight_takes takes _)
  · obtain ⟨⟨name, there⟩, -, rest⟩ := bind_eq_ok.mp read
    cases rest
    cases groupless
  · obtain ⟨found, skipped, rest⟩ := bind_eq_ok.mp read
    cases found with
    | none => cases rest
    | some there =>
        cases rest
        have ends := commentTail_of_skipPast sound skipped
        refine ⟨suffix_commentTail ends, fun depth => (tight_comment depth input.rest).trans ?_⟩
        rw [ends]
        rfl
  · split at read
    · rename_i flag
      obtain ⟨inner, noComment, noName⟩ := isInner_of_flag flag
      have opens : ∀ depth, action.after depth = some (depth + 1) := by
        unfold lexFlags at read
        obtain ⟨⟨list, there⟩, -, rest⟩ := bind_eq_ok.mp read
        rcases list with ⟨on⟩ | ⟨on, off⟩
        · cases rest
          exact absurd rfl (inGroup on)
        · cases rest
          exact fun _ => rfl
      rw [← input.onto_nil] at read
      obtain ⟨there, takes, same, -⟩ := within_lexFlags shut_nil inGroup read
      rw [Input.onto_nil] at same
      subst same
      refine ⟨takes.suffix, fun depth => ?_⟩
      rw [opens]
      exact (tight_sign inner noComment noName depth _).trans (tight_takes takes _)
    · cases read
  · cases read

theorem tight_lexOpening
    (sound : input.Sound)
    (groupless : action.meetsGroup = false)
    (inGroup : ∀ on, action ≠ .everywhere on)
    (read : lexOpening flags input = .ok (action, behind)) :
    behind.rest <:+ input.rest ∧
      ∀ depth, tight depth ('(' :: input.rest) =
        (action.after depth).any fun after => tight after behind.rest := by
  unfold lexOpening at read
  obtain ⟨question, taken, read⟩ := bind_eq_ok.mp read
  cases question with
  | none =>
      cases read
      cases groupless
  | some inside =>
      have insideSound := (Input.take?_onto 0 quiet_nil.notEscape sound taken).1
      obtain ⟨first, next, read⟩ := bind_eq_ok.mp read
      cases first with
      | none => cases read
      | some step =>
          obtain ⟨token, after⟩ := step
          have afterSound := (Input.next?_onto 0 quiet_nil.notEscape insideSound next).1
          obtain ⟨suffix, opens⟩ := tight_lexExtension afterSound groupless inGroup read
          rw [Input.rest_of_take? rfl taken, (Input.rest_of_next? insideSound next).1]
          refine ⟨(suffix.trans (List.suffix_append token.text _)).trans ?_, opens⟩
          exact List.suffix_cons _ _

theorem tight_lexPlain
    {c : Char}
    (sound : input.Sound)
    (noEscape : c ≠ '\\')
    (noClosing : c ≠ ')')
    (silent : flags.verbose = true → c ≠ '#')
    (groupless : action.meetsGroup = false)
    (inGroup : ∀ on, action ≠ .everywhere on)
    (read : lexPlain flags c input = .ok (action, behind)) :
    behind.rest <:+ input.rest ∧
      ∀ depth, tight depth (c :: input.rest) =
        (action.after depth).any fun after => tight after behind.rest := by
  have plain : c ≠ '(' → c ≠ '[' →
      ∀ depth, tight depth (c :: input.rest) = tight depth input.rest :=
    fun noOpening noBracket depth =>
      tight_plain (isPlainSign_iff.mpr ⟨noEscape, noBracket, noOpening, noClosing⟩) depth _
  unfold lexPlain at read
  split at read
  · rename_i layout
    have isLayout := (Bool.and_eq_true_iff.mp layout).2
    cases read
    refine ⟨List.suffix_rfl, plain ?_ ?_⟩ <;> rintro rfl <;> cases isLayout
  · split at read
    · rename_i comment
      obtain ⟨verbose, hash⟩ := Bool.and_eq_true_iff.mp comment
      exact absurd (beq_iff_eq.mp hash) (silent verbose)
    · unfold lexSign at read
      split at read
      · exact tight_lexOpening sound groupless inGroup read
      · unfold lexClass at read
        obtain ⟨⟨negated, members, there⟩, body, rest⟩ := bind_eq_ok.mp read
        cases rest
        have ends := classBehind_of_classBody sound body
        refine ⟨suffix_classBehind ends, fun depth => (tight_class depth input.rest).trans ?_⟩
        rw [ends]
        rfl
      · cases read
        exact ⟨List.suffix_rfl, plain (by decide) (by decide)⟩
      · cases read
        exact ⟨List.suffix_rfl, plain (by decide) (by decide)⟩
      · cases read
        exact ⟨List.suffix_rfl, plain (by decide) (by decide)⟩
      · rename_i noOpening noBracket _ _ _
        have passed := plain noOpening noBracket
        split at read
        · have takes := (within_lexRepeat shut_nil flags c).takes read
          refine ⟨takes.suffix, fun depth => ?_⟩
          rw [Action.after_of_isFlat (isFlat_lexRepeat read)]
          exact (passed depth).trans (tight_takes takes depth)
        · cases read
          exact ⟨List.suffix_rfl, passed⟩

theorem lex_plain
    {c : Char}
    (noClosing : c ≠ ')')
    (noBar : c ≠ '|')
    (input : Input) :
    lex flags (.plain c) input = lexPlain flags c input := by
  unfold lex
  split
  · rename_i other
    exact (noClosing (Token.plain.inj other)).elim
  · rename_i other
    exact (noBar (Token.plain.inj other)).elim
  · rename_i other
    cases other
  · rename_i other
    cases other
    rfl

theorem tight_lex
    (sound : input.Sound)
    (noEscape : token ≠ .plain '\\')
    (silent : flags.verbose = true → token ≠ .plain '#')
    (groupless : action.meetsGroup = false)
    (inGroup : ∀ on, action ≠ .everywhere on)
    (read : lex flags token input = .ok (action, behind)) :
    behind.rest <:+ input.rest ∧
      ∀ depth, tight depth (token.text ++ input.rest) =
        (action.after depth).any fun after => tight after behind.rest := by
  unfold lex at read
  split at read
  · cases read
    refine ⟨List.suffix_rfl, fun depth => (tight_cons depth ')' input.rest).trans ?_⟩
    cases depth <;> rfl
  · cases read
    exact ⟨List.suffix_rfl, fun depth => tight_plain (by decide) depth _⟩
  · rename_i c
    have takes := (within_lexEscape shut_nil flags c).takes read
    refine ⟨takes.suffix, fun depth => ?_⟩
    rw [Action.after_of_isFlat (isFlat_lexEscape read)]
    exact (tight_escape depth c _).trans (tight_takes takes depth)
  · rename_i c noClosing noBar
    have escapeless : c ≠ '\\' := fun same => noEscape (congrArg Token.plain same)
    exact tight_lexPlain sound escapeless noClosing
      (fun verbose hash => silent verbose (congrArg Token.plain hash)) groupless inGroup read

/-! ## Tight expressions in longer ones -/

theorem tight_lone
    (noEscape : token ≠ .plain '\\')
    (depth : Nat) :
    tight depth (token.text ++ ['\\']) = false := by
  cases token with
  | escaped c => exact tight_escape depth c ['\\']
  | plain c =>
      by_cases plain : isPlainSign c = true
      · exact tight_plain plain depth ['\\']
      · rw [isPlainSign, Bool.not_eq_true', Bool.not_eq_false, List.contains_iff_mem] at plain
        simp only [List.mem_cons, List.not_mem_nil, or_false] at plain
        rcases plain with rfl | rfl | rfl | rfl
        · exact absurd rfl noEscape
        · rfl
        · rfl
        · cases depth <;> rfl

theorem tight_lone_group
    (noEscape : token ≠ .plain '\\')
    (depth : Nat) :
    tight depth ('(' :: '?' :: (token.text ++ ['\\'])) = false := by
  have lone := tight_lone noEscape (depth + 1)
  rw [tight_opening]
  cases token with
  | escaped c => exact lone
  | plain c =>
      by_cases comment : c = '#'
      · subst comment
        rfl
      · by_cases name : c = 'P'
        · subst name
          rfl
        · by_cases branch : c = '('
          · subst branch
            rfl
          · exact (congrArg (Option.any _) (openingTail_sign comment name branch _ _)).trans lone

variable {post : List Char} {shift : Nat}

theorem within_lexExtension
    (shut : Shut post)
    (isTight : tight depth ('(' :: '?' :: (token.text ++ input.rest)) = true)
    (inGroup : ∀ on, action ≠ .everywhere on)
    (read : lexExtension flags token (input.onto post shift) = .ok (action, last)) :
    action.meetsGroup = false ∧ ∃ behind, last = behind.onto post shift ∧
      lexExtension flags token input = .ok (action, behind) := by
  unfold lexExtension at read
  split at read
  · cases isTight
  · cases read
    exact ⟨rfl, input, rfl, rfl⟩
  · cases read
    exact ⟨rfl, input, rfl, rfl⟩
  · cases read
    exact ⟨rfl, input, rfl, rfl⟩
  · cases read
    exact ⟨rfl, input, rfl, rfl⟩
  · have firm : input.Firm := firm_of_tight
      ((tight_sign rfl (by decide) (by decide) depth input.rest).symm.trans isTight)
    obtain ⟨behind, -, rfl, alone⟩ := within_lexBehind shut _ _ _ read
    have looks : action.meetsGroup = false := by
      unfold lexBehind at read
      obtain ⟨taken, -, rest⟩ := bind_eq_ok.mp read
      split at rest <;> cases rest <;> rfl
    exact ⟨looks, behind, rfl, alone firm⟩
  · cases isTight
  · obtain ⟨found, skipped, rest⟩ := bind_eq_ok.mp read
    cases found with
    | none => cases rest
    | some there =>
        cases rest
        have ends : (commentTail input.rest).any (tight depth) = true :=
          (tight_comment depth input.rest).symm.trans isTight
        obtain ⟨rest, ends, tightRest⟩ := (Option.any_eq_true _ _).mp ends
        obtain ⟨behind, rfl, alone⟩ := within_skipPast shut ends (ne_backslash_of_tight tightRest)
          (Nat.lt_succ_self _) skipped
        exact ⟨rfl, behind, rfl, bind_eq_ok.mpr ⟨_, alone, rfl⟩⟩
  · split at read
    · rename_i flag
      obtain ⟨inner, noComment, noName⟩ := isInner_of_flag flag
      have firm : input.Firm := firm_of_tight
        ((tight_sign inner noComment noName depth input.rest).symm.trans isTight)
      have opens : action.meetsGroup = false := by
        unfold lexFlags at read
        obtain ⟨⟨list, there⟩, -, rest⟩ := bind_eq_ok.mp read
        rcases list with ⟨on⟩ | ⟨on, off⟩ <;> cases rest <;> rfl
      obtain ⟨behind, -, rfl, alone⟩ := within_lexFlags shut inGroup read
      exact ⟨opens, behind, rfl, (Reading.lexExtension_flag flag input).trans (alone firm)⟩
    · cases read
  · cases read

theorem within_lexOpening
    (shut : Shut post)
    (sound : input.Sound)
    (isTight : tight depth ('(' :: input.rest) = true)
    (inGroup : ∀ on, action ≠ .everywhere on)
    (read : lexOpening flags (input.onto post shift) = .ok (action, last)) :
    action.meetsGroup = false ∧ ∃ behind, last = behind.onto post shift ∧
      lexOpening flags input = .ok (action, behind) := by
  unfold lexOpening at read ⊢
  obtain ⟨question, taken, read⟩ := bind_eq_ok.mp read
  cases question with
  | none =>
      have noQuestion := Input.rest_ne_of_take? rfl (Input.take?_within_none shut rfl taken)
      rw [tight_opening, openingTail_none noQuestion] at isTight
      cases isTight
  | some there =>
      obtain ⟨text, starts⟩ : ∃ text, input.rest = '?' :: text := by
        have peeked : (input.onto post shift).peek? = some (.plain '?') :=
          (Input.peek?_inner rfl).mpr ⟨_, Input.rest_of_take? rfl taken⟩
        exact (Input.peek?_shut shut rfl).mp peeked
      rw [starts] at isTight
      have some : text ≠ [] := by
        rintro rfl
        cases isTight
      have textSound : text ≠ ['\\'] := by
        rintro rfl
        cases isTight
      have question := Input.take?_plain starts (by decide) textSound
      obtain ⟨-, onto⟩ := Input.take?_onto shift shut.notEscape sound question
      rw [onto] at taken
      cases taken
      have insideSound : Input.Sound ⟨text, input.pos + 1⟩ := textSound
      obtain ⟨token, rest, begins, noEscape, -⟩ := Input.exists_token insideSound some
      dsimp only at begins
      subst begins
      have restSound : rest ≠ ['\\'] := by
        rintro rfl
        rw [tight_lone_group noEscape] at isTight
        cases isTight
      have next : Input.next? ⟨token.text ++ rest, input.pos + 1⟩ =
          .ok (.some (token, ⟨rest, input.pos + 1 + token.width⟩)) :=
        Input.next?_token rfl noEscape restSound
      obtain ⟨-, onto⟩ := Input.next?_onto shift shut.notEscape insideSound next
      dsimp only at read
      rw [onto] at read
      obtain ⟨groupless, behind, rfl, alone⟩ := within_lexExtension shut isTight inGroup read
      exact ⟨groupless, behind, rfl,
        bind_eq_ok.mpr ⟨_, question, bind_eq_ok.mpr ⟨_, next, alone⟩⟩⟩

theorem within_lexPlain
    {c : Char}
    (shut : Shut post)
    (sound : input.Sound)
    (isTight : tight depth (c :: input.rest) = true)
    (silent : flags.verbose = true → c ≠ '#')
    (noClosing : c ≠ ')')
    (inGroup : ∀ on, action ≠ .everywhere on)
    (read : lexPlain flags c (input.onto post shift) = .ok (action, last)) :
    action.meetsGroup = false ∧ ∃ behind, last = behind.onto post shift ∧
      lexPlain flags c input = .ok (action, behind) := by
  unfold lexPlain at read ⊢
  split at read
  · rename_i layout
    cases read
    exact ⟨rfl, input, rfl, if_pos layout⟩
  · rename_i noLayout
    rw [if_neg noLayout]
    split at read
    · rename_i comment
      obtain ⟨verbose, hash⟩ := Bool.and_eq_true_iff.mp comment
      exact absurd (beq_iff_eq.mp hash) (silent verbose)
    · rename_i noComment
      rw [if_neg noComment]
      unfold lexSign at read ⊢
      split at read
      · exact within_lexOpening shut sound isTight inGroup read
      · unfold lexClass at read ⊢
        obtain ⟨⟨negated, members, there⟩, body, rest⟩ := bind_eq_ok.mp read
        cases rest
        rw [tight_class] at isTight
        obtain ⟨rest, ends, tightRest⟩ := (Option.any_eq_true _ _).mp isTight
        obtain ⟨behind, rfl, alone⟩ :=
          within_classBody shut ends (ne_backslash_of_tight tightRest) body
        exact ⟨rfl, behind, rfl, bind_eq_ok.mpr ⟨_, alone, rfl⟩⟩
      · cases read
        exact ⟨rfl, input, rfl, rfl⟩
      · cases read
        exact ⟨rfl, input, rfl, rfl⟩
      · cases read
        exact ⟨rfl, input, rfl, rfl⟩
      · rename_i noOpening noBracket _ _ _
        split
        · rename_i repeats
          rw [if_pos repeats] at read
          have escapeless : c ≠ '\\' := by
            rintro rfl
            cases repeats
          have plain := isPlainSign_iff.mpr ⟨escapeless, noBracket, noOpening, noClosing⟩
          rw [tight_plain plain] at isTight
          obtain ⟨behind, -, rfl, alone⟩ := within_lexRepeat shut flags c _ _ _ read
          exact ⟨Action.meetsGroup_of_isFlat (isFlat_lexRepeat read), behind, rfl,
            alone (firm_of_tight isTight)⟩
        · rename_i plain
          rw [if_neg plain] at read
          cases read
          exact ⟨rfl, input, rfl, rfl⟩

/-- What is asked for in a tight expression with a parenthesis behind it is what is asked for in
the expression by itself, and has nothing to do with groups that have a number or a name. -/
theorem within_lex
    (shut : Shut post)
    (sound : input.Sound)
    (isTight : tight depth (token.text ++ input.rest) = true)
    (silent : flags.verbose = true → token ≠ .plain '#')
    (inGroup : ∀ on, action ≠ .everywhere on)
    (read : lex flags token (input.onto post shift) = .ok (action, last)) :
    action.meetsGroup = false ∧ ∃ behind, last = behind.onto post shift ∧
      lex flags token input = .ok (action, behind) := by
  unfold lex at read
  split at read
  · cases read
    exact ⟨rfl, input, rfl, rfl⟩
  · cases read
    exact ⟨rfl, input, rfl, rfl⟩
  · rename_i c
    have firm : input.Firm := firm_of_tight ((tight_escape depth c input.rest).symm.trans isTight)
    obtain ⟨behind, -, rfl, alone⟩ := within_lexEscape shut flags c _ _ _ read
    exact ⟨Action.meetsGroup_of_isFlat (isFlat_lexEscape read), behind, rfl, alone firm⟩
  · rename_i c noClosing noBar
    rw [lex_plain noClosing noBar]
    exact within_lexPlain shut sound isTight
      (fun verbose hash => silent verbose (congrArg Token.plain hash)) noClosing inGroup read

end Actions

end NoticeScan.Regex
