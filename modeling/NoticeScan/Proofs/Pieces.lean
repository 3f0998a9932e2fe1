import NoticeScan.Proofs.Closed
import NoticeScan.Pattern.Vocabulary

/-!
# Reading an expression piece by piece

A long expression is put together from pieces. What each piece adds to the group in which it
stands does not depend on what is around it, so what the whole comes to is known from the pieces.
-/

namespace NoticeScan.Regex

/-! ## Single steps -/

namespace Input

variable {input : Input} {c : Char} {rest : List Char}

theorem peek?_plain
    (starts : input.rest = c :: rest)
    (plain : c ≠ '\\') :
    input.peek? = some (.plain c) := by
  unfold peek?
  rw [starts]
  split
  · rename_i none
    cases none
  · rename_i escaped
    cases escaped
    exact absurd rfl plain
  · rename_i first _ _ same
    cases same
    rfl

theorem drop_one
    (starts : input.rest = c :: rest)
    (sound : rest ≠ ['\\']) :
    input.drop 1 = .ok ⟨rest, input.pos + 1⟩ := by
  unfold drop checked
  rw [starts, List.drop_one, List.tail_cons, if_neg sound]

theorem next?_plain
    (starts : input.rest = c :: rest)
    (plain : c ≠ '\\')
    (sound : rest ≠ ['\\']) :
    input.next? = .ok (some (.plain c, ⟨rest, input.pos + 1⟩)) := by
  unfold next?
  rw [peek?_plain starts plain]
  dsimp only [Token.width]
  rw [drop_one starts sound]

theorem take?_plain
    (starts : input.rest = c :: rest)
    (plain : c ≠ '\\')
    (sound : rest ≠ ['\\']) :
    input.take? c = .ok (some ⟨rest, input.pos + 1⟩) := by
  unfold take?
  rw [if_pos (peek?_plain starts plain), drop_one starts sound]

end Input

theorem next?_escaped
    {c : Char}
    {rest : List Char}
    (sound : rest ≠ ['\\'])
    (pos : Nat) :
    Input.next? ⟨'\\' :: c :: rest, pos⟩ = .ok (some (.escaped c, ⟨rest, pos + 2⟩)) := by
  have dropped : Input.drop ⟨'\\' :: c :: rest, pos⟩ 2 = .ok ⟨rest, pos + 2⟩ := if_neg sound
  unfold Input.next?
  have peeked : Input.peek? ⟨'\\' :: c :: rest, pos⟩ = some (.escaped c) := rfl
  rw [peeked]
  dsimp only [Token.width]
  rw [dropped]

theorem ne_backslash_of_append
    {first rest : List Char}
    {c : Char}
    (sound : c :: rest ≠ ['\\']) :
    first ++ c :: rest ≠ ['\\'] := by
  intro same
  cases first with
  | nil => exact sound same
  | cons d others => simp at same

/-! ## The state of reading between two pieces -/

/-- All groups that have been met have names. -/
structure Groups.Named (groups : Groups) (names : List (List Char × Nat)) : Prop where
  widths : groups.widths.size = names.length + 1
  names : groups.names = names

/-- A piece can be read: the flags and the groups met so far are the expected ones, and nothing
around looks behind. -/
structure Ready (deep : Bool) (flags : Flags) (names : List (List Char × Nat))
    (reading : Reading) : Prop where
  flags : reading.level.flags = flags
  noBranch : ∀ index, reading.level.opener ≠ .branch index
  inside : deep = true → reading.level.opener ≠ .whole
  named : reading.groups.Named names
  forward : reading.lookbehindFrom = none

/-- A reading that has gone on in the innermost open group. -/
def Reading.goneOn (reading : Reading) (post : List Char) (pos : Nat)
    (branches : List (List Item)) (entries : List Entry) (groups : Groups) : Reading :=
  { reading with
    input := ⟨post, pos⟩
    level := { reading.level with branches := branches, entries := entries }
    groups := groups }

theorem Ready.goneOn
    {deep : Bool}
    {flags : Flags}
    {names others : List (List Char × Nat)}
    {reading : Reading}
    (ready : Ready deep flags names reading)
    {groups : Groups}
    (named : groups.Named others)
    (post : List Char)
    (pos : Nat)
    (branches : List (List Item))
    (entries : List Entry) :
    Ready deep flags others (reading.goneOn post pos branches entries groups) :=
  ⟨ready.flags, ready.noBranch, ready.inside, named, ready.forward⟩

/-- A piece adds entries to the branch being read. -/
structure Adds (deep : Bool) (flags : Flags) (before after : List (List Char × Nat))
    (piece : List Char) (entries : List Entry) : Prop where
  sound : piece ≠ ['\\']
  reaches : ∀ reading post, Ready deep flags before reading →
    reading.input.rest = piece ++ post → Quiet post →
    ∃ pos groups, groups.Named after ∧
      Reading.Reaches reading
        (reading.goneOn post pos reading.level.branches
          (entries.reverse ++ reading.level.entries) groups)

/-- A piece at the start of a branch makes up branches. -/
structure Splits (deep : Bool) (flags : Flags) (before after : List (List Char × Nat))
    (piece : List Char) (branches : List (List Item)) : Prop where
  sound : piece ≠ ['\\']
  reaches : ∀ reading post, Ready deep flags before reading → reading.level.entries = [] →
    reading.input.rest = piece ++ post → Quiet post →
    ∃ pos groups finished entries, groups.Named after ∧
      (entries.reverse.flatMap Entry.items :: finished).reverse =
        reading.level.branches.reverse ++ branches ∧
      Reading.Reaches reading (reading.goneOn post pos finished entries groups)

/-- A piece that is quiet in front of what is quiet. -/
def Mild (piece : List Char) : Prop :=
  ∀ post, Quiet post → Quiet (piece ++ post)

theorem quiet_cons
    {c : Char}
    (stops : continues c = false)
    (plain : c ≠ '\\')
    (rest : List Char) :
    Quiet (c :: rest) := by
  refine ⟨?_, ?_⟩
  · intro same
    exact plain (List.cons.inj same).1
  · intro d others starts
    cases starts
    exact stops

theorem mild_cons
    {c : Char}
    (stops : continues c = false)
    (plain : c ≠ '\\')
    (rest : List Char) :
    Mild (c :: rest) :=
  fun post _ => quiet_cons stops plain (rest ++ post)

theorem mild_escape
    (c : Char)
    (rest : List Char) :
    Mild ('\\' :: c :: rest) := by
  intro post _
  refine ⟨by simp, ?_⟩
  intro d others starts
  cases starts
  rfl

theorem sound_append
    {first second : List Char}
    (one : first ≠ ['\\'])
    (other : second ≠ ['\\']) :
    first ++ second ≠ ['\\'] := by
  cases first with
  | nil => exact other
  | cons c rest =>
      intro same
      simp only [List.cons_append, List.cons.injEq, List.append_eq_nil_iff] at same
      obtain ⟨rfl, rfl, -⟩ := same
      exact one rfl

section Rules

variable {deep : Bool} {flags inner : Flags} {before between after : List (List Char × Nat)}
  {first second piece : List Char} {entries more : List Entry}
  {branches others : List (List Item)}

theorem adds_nil
    (names : List (List Char × Nat)) :
    Adds deep flags names names [] [] := by
  refine ⟨by simp, ?_⟩
  intro reading post ready starts _
  refine ⟨reading.input.pos, reading.groups, ready.named, ?_⟩
  have same : reading.goneOn post reading.input.pos reading.level.branches
      reading.level.entries reading.groups = reading := by
    unfold Reading.goneOn
    rw [← List.nil_append post, ← starts]
  rw [List.reverse_nil, List.nil_append, same]
  exact .refl _

theorem Adds.append
    (one : Adds deep flags before between first entries)
    (other : Adds deep flags between after second more)
    (mild : Mild second) :
    Adds deep flags before after (first ++ second) (entries ++ more) := by
  refine ⟨sound_append one.sound other.sound, ?_⟩
  intro reading post ready starts quiet
  rw [List.append_assoc] at starts
  obtain ⟨pos, groups, named, reaches⟩ := one.reaches reading _ ready starts (mild post quiet)
  obtain ⟨last, final, finalNamed, further⟩ :=
    other.reaches _ post (ready.goneOn named _ pos _ _) rfl quiet
  refine ⟨last, final, finalNamed, reaches.trans ?_⟩
  rw [List.reverse_append, List.append_assoc]
  exact further

theorem Splits.of_adds
    (adds : Adds deep flags before after piece entries) :
    Splits deep flags before after piece [entries.flatMap Entry.items] := by
  refine ⟨adds.sound, ?_⟩
  intro reading post ready fresh starts quiet
  obtain ⟨pos, groups, named, reaches⟩ := adds.reaches reading post ready starts quiet
  rw [fresh, List.append_nil] at reaches
  refine ⟨pos, groups, _, _, named, ?_, reaches⟩
  rw [List.reverse_reverse, List.reverse_cons]

/-- A bar ends a branch. -/
theorem reaches_bar
    {reading : Reading}
    {rest : List Char}
    (ready : Ready deep flags before reading)
    (starts : reading.input.rest = '|' :: rest)
    (sound : rest ≠ ['\\']) :
    Reading.Reaches reading
      (reading.goneOn rest (reading.input.pos + 1)
        (Reading.sequence reading.level :: reading.level.branches) [] reading.groups) := by
  have peeked := Input.peek?_plain starts (by decide)
  have enabled : Enabled reading .bar := fun index opener => absurd opener (ready.noBranch index)
  have asked : lex reading.flags (.plain '|') ⟨rest, reading.input.pos + 1⟩ =
      .ok (.bar, ⟨rest, reading.input.pos + 1⟩) := rfl
  obtain ⟨next, stepped, acts⟩ :=
    Reading.step_acts (Input.drop_one starts sound) asked enabled
  cases acts
  exact .step peeked stepped (.refl _)

/-- A bar between pieces separates their branches. -/
theorem Splits.bar
    (one : Splits deep flags before between first branches)
    (other : Splits deep flags between after second others) :
    Splits deep flags before after (first ++ '|' :: second) (branches ++ others) := by
  refine ⟨ne_backslash_of_append (by simp), ?_⟩
  intro reading post ready fresh starts quiet
  rw [List.append_assoc, List.cons_append] at starts
  have barQuiet := quiet_cons (c := '|') rfl (by decide) (second ++ post)
  obtain ⟨pos, groups, finished, entries, named, listed, reaches⟩ :=
    one.reaches reading _ ready fresh starts barQuiet
  have middle := ready.goneOn named ('|' :: (second ++ post)) pos finished entries
  have step := reaches_bar middle rfl (sound_append other.sound quiet.notEscape)
  obtain ⟨last, final, ended, others, finalNamed, finalListed, further⟩ :=
    other.reaches _ post (middle.goneOn named _ _ _ []) rfl rfl quiet
  refine ⟨last, final, ended, others, finalNamed, ?_, (reaches.trans step).trans further⟩
  rw [finalListed, ← List.append_assoc, ← listed]
  rfl

theorem oneOf_cons
    (one next : List Char)
    (rest : List (List Char)) :
    Pattern.oneOf (one :: next :: rest) = one ++ '|' :: Pattern.oneOf (next :: rest) := by
  unfold Pattern.oneOf
  rw [List.intercalate_cons_cons, List.append_assoc]
  rfl

/-- Pieces without groups, with bars between them. -/
theorem Splits.oneOf
    {names : List (List Char × Nat)}
    {pieces : List (List Char)}
    {parted : List (List (List Item))}
    (some : pieces ≠ [])
    (each : List.Forall₂ (fun piece branches => Splits deep flags names names piece branches)
      pieces parted) :
    Splits deep flags names names (Pattern.oneOf pieces) parted.flatten := by
  induction each with
  | nil => exact absurd rfl some
  | @cons one branches rest others first later inductionHypothesis =>
      cases later with
      | nil =>
          rw [List.flatten_cons, List.flatten_nil, List.append_nil]
          unfold Pattern.oneOf
          rw [List.intercalate_singleton]
          exact first
      | @cons next _ more _ _ _ =>
          rw [oneOf_cons, List.flatten_cons]
          exact first.bar (inductionHypothesis (List.cons_ne_nil next more))

/-! ## Pieces that are closed by themselves -/

/-- The place in which the next piece stands. -/
def Reading.frame (reading : Reading) (post : List Char) : Frame where
  post := post
  shift := reading.input.pos
  base := reading.level
  under := reading.outer
  groups := reading.groups
  mentioned := reading.mentioned
  everywhere := reading.everywhere

theorem lift_start
    {reading : Reading}
    {post : List Char}
    (ready : Ready deep flags before reading)
    (starts : reading.input.rest = piece ++ post) :
    (reading.frame post).lift (Reading.start flags piece) = reading := by
  have forward := ready.forward
  obtain ⟨⟨rest, pos⟩, level, outer, groups, looks, mentioned, everywhere⟩ := reading
  dsimp only at starts forward
  subst starts forward
  unfold Frame.lift Reading.frame Reading.start Input.onto Frame.top Frame.bottom Frame.stack
  simp

theorem lift_final
    {reading final : Reading}
    (atEnd : final.input.rest = [])
    (closed : final.outer = [])
    (forward : final.lookbehindFrom = none)
    (post : List Char) :
    (reading.frame post).lift final =
      { reading with
        input := ⟨post, final.input.pos + reading.input.pos⟩
        level := (reading.frame post).bottom final.level
        lookbehindFrom := none } := by
  unfold Frame.lift Input.onto
  rw [closed, forward, atEnd]
  rfl

/-- A closed piece is read where it stands as it is read by itself. -/
theorem Closed.reaches_in
    {reading final : Reading}
    {post : List Char}
    (closed : Closed flags piece final)
    (terse : flags.verbose = false)
    (ready : Ready deep flags before reading)
    (starts : reading.input.rest = piece ++ post)
    (quiet : Quiet post) :
    Reading.Reaches reading
        (reading.goneOn post (final.input.pos + reading.input.pos)
          ((reading.frame post).bottom final.level).branches
          ((reading.frame post).bottom final.level).entries reading.groups) ∧
      final.level.flags = flags := by
  have base : (reading.frame post).base.flags = flags := ready.flags
  have alone : Alone (reading.frame post).base.flags (Reading.start flags piece) := by
    rw [base]
    exact Reading.alone_start flags piece
  have clear : (reading.frame post).base.flags.verbose = false := by
    rw [base]
    exact terse
  obtain ⟨run, finalAlone⟩ := Alone.reaches_lift ready.noBranch clear quiet alone
    closed.sound closed.reaches closed.outer closed.groupless closed.everywhere
  have rooted := finalAlone.rooted
  rw [closed.outer, base] at rooted
  rw [lift_start ready starts,
    lift_final closed.atEnd closed.outer (closed.lookbehindFrom rooted.1)] at run
  refine ⟨?_, rooted.2⟩
  have same : reading.goneOn post (final.input.pos + reading.input.pos)
      ((reading.frame post).bottom final.level).branches
      ((reading.frame post).bottom final.level).entries reading.groups =
      { reading with
        input := ⟨post, final.input.pos + reading.input.pos⟩
        level := (reading.frame post).bottom final.level
        lookbehindFrom := none } := by
    rw [← ready.forward]
    unfold Reading.goneOn Frame.bottom Reading.frame
    dsimp only
    split <;> rfl
  rw [same]
  exact run

/-- A closed piece without bars adds its entries. -/
theorem Closed.adds
    {final : Reading}
    (closed : Closed flags piece final)
    (terse : flags.verbose = false)
    (simple : final.level.branches = [])
    (names : List (List Char × Nat)) :
    Adds deep flags names names piece final.level.entries.reverse := by
  refine ⟨closed.sound, ?_⟩
  intro reading post ready starts quiet
  obtain ⟨reaches, -⟩ := closed.reaches_in terse ready starts quiet
  refine ⟨final.input.pos + reading.input.pos, reading.groups, ready.named, ?_⟩
  rw [List.reverse_reverse]
  unfold Frame.bottom at reaches
  rw [simple] at reaches
  exact reaches

theorem prepend_nil
    (branches : List (List Item)) :
    prepend [] branches = branches := by
  induction branches with
  | nil => rfl
  | cons branch rest inductionHypothesis =>
      cases rest with
      | nil => rfl
      | cons next more => exact congrArg (branch :: ·) inductionHypothesis

/-- A closed piece makes up its branches. -/
theorem Closed.splits
    {final : Reading}
    (closed : Closed flags piece final)
    (terse : flags.verbose = false)
    (names : List (List Char × Nat)) :
    Splits deep flags names names piece (Reading.branches final.level) := by
  refine ⟨closed.sound, ?_⟩
  intro reading post ready fresh starts quiet
  obtain ⟨reaches, -⟩ := closed.reaches_in terse ready starts quiet
  refine ⟨_, _, _, _, ready.named, ?_, reaches⟩
  have base : (reading.frame post).base = reading.level := rfl
  unfold Frame.bottom
  rw [base]
  cases branches : final.level.branches with
  | nil =>
      dsimp only
      rw [fresh, List.append_nil]
      unfold Reading.branches Reading.sequence
      rw [branches, List.reverse_cons, List.reverse_cons]
      rfl
  | cons branch rest =>
      have empty : Reading.sequence reading.level = [] := by
        unfold Reading.sequence
        rw [fresh]
        rfl
      dsimp only
      rw [empty, prepend_nil]
      unfold Reading.branches Reading.sequence
      rw [branches, ← List.reverse_append]
      rfl

/-! ## Groups -/

/-- What captures, only holds items together or looks ahead for them. -/
def Opener.Mere (opener : Opener) : Prop :=
  opener = .plain ∨ opener = .flagged ∨ opener = .look false false true ∨
    ∃ index, opener = .capture index

/-- The entry that such a group is. -/
def groupEntry (opener : Opener) (flags : Flags) (branches : List (List Item)) : Entry :=
  match opener with
  | .plain => .bundle (alternatives flags branches)
  | .capture index => .single (.captured index (alternatives flags branches))
  | .look _ _ _ => .single (.looking false false (.ofItems (alternatives flags branches)))
  | _ => .single (.scoped (alternatives flags branches))

theorem reaches_closing
    {reading : Reading}
    {level : Level}
    {outer : List Level}
    {post : List Char}
    (opened : reading.outer = level :: outer)
    (starts : reading.input.rest = ')' :: post)
    (sound : post ≠ ['\\']) :
    Reading.Reaches reading
      (reading.closeGroup ⟨post, reading.input.pos + 1⟩ level outer) := by
  have enabled : Enabled reading .close := by
    unfold Enabled
    rw [opened]
    exact List.cons_ne_nil level outer
  have asked : lex reading.flags (.plain ')') ⟨post, reading.input.pos + 1⟩ =
      .ok (.close, ⟨post, reading.input.pos + 1⟩) := rfl
  obtain ⟨next, stepped, acts⟩ :=
    Reading.step_acts (Input.drop_one starts sound) asked enabled
  have peeked := Input.peek?_plain starts (by decide)
  cases acts with
  | close level' outer' opened' =>
      rw [opened] at opened'
      cases opened'
      exact .step peeked stepped (.refl _)

/-- A group that is closed is an entry of the group around it. -/
theorem closeGroup_goneOn
    {opener : Opener}
    (mere : opener.Mere)
    (reading : Reading)
    (opening : Input)
    (start : Nat)
    (rest post : List Char)
    (last after : Nat)
    (finished : List (List Item))
    (groups : Groups) :
    ∃ final : Groups, final.names = groups.names ∧ final.widths.size = groups.widths.size ∧
      ((reading.enter opening opener start inner).goneOn rest last finished entries
          groups).closeGroup ⟨post, after⟩ reading.level reading.outer =
        reading.goneOn post after reading.level.branches
          (groupEntry opener inner (entries.reverse.flatMap Entry.items :: finished).reverse ::
            reading.level.entries)
          final := by
  rcases mere with rfl | rfl | rfl | ⟨index, rfl⟩
  · exact ⟨groups, rfl, rfl, rfl⟩
  · exact ⟨groups, rfl, rfl, rfl⟩
  · exact ⟨groups, rfl, rfl, rfl⟩
  · refine ⟨(((reading.enter opening (.capture index) start inner).goneOn rest last finished
      entries groups).closeGroup ⟨post, after⟩ reading.level reading.outer).groups, rfl, ?_, rfl⟩
    exact Array.size_setIfInBounds

/-- The text of a group is read up to its closing parenthesis and closed. -/
theorem Splits.reaches_close
    (splits : Splits true inner before after piece branches)
    {opener : Opener}
    (mere : opener.Mere)
    (reading : Reading)
    {post : List Char}
    (named : reading.groups.Named before)
    (forward : reading.lookbehindFrom = none)
    (sound : post ≠ ['\\'])
    (pos start : Nat) :
    ∃ last groups, groups.Named after ∧
      Reading.Reaches (reading.enter ⟨piece ++ ')' :: post, pos⟩ opener start inner)
        (reading.goneOn post last reading.level.branches
          (groupEntry opener inner branches :: reading.level.entries) groups) := by
  have notWhole : opener ≠ .whole := by
    rcases mere with rfl | rfl | rfl | ⟨index, rfl⟩ <;> simp
  have noBranch : ∀ index, opener ≠ .branch index := by
    rcases mere with rfl | rfl | rfl | ⟨index, rfl⟩ <;> simp
  have ready : Ready true inner before
      (reading.enter ⟨piece ++ ')' :: post, pos⟩ opener start inner) :=
    ⟨rfl, noBranch, fun _ => notWhole, named, forward⟩
  have closing := quiet_cons (c := ')') rfl (by decide) post
  obtain ⟨last, groups, finished, entries, namedAfter, listed, reaches⟩ :=
    splits.reaches _ _ ready rfl rfl closing
  have step : Reading.Reaches
      ((reading.enter ⟨piece ++ ')' :: post, pos⟩ opener start inner).goneOn (')' :: post) last
        finished entries groups)
      (((reading.enter ⟨piece ++ ')' :: post, pos⟩ opener start inner).goneOn (')' :: post) last
        finished entries groups).closeGroup ⟨post, last + 1⟩ reading.level reading.outer) :=
    reaches_closing rfl rfl sound
  obtain ⟨final, sameNames, sameSize, closed⟩ :=
    closeGroup_goneOn mere reading
      ⟨piece ++ ')' :: post, pos⟩ start (')' :: post) post last (last + 1) finished groups
  rw [closed, listed] at step
  exact ⟨last + 1, final,
    ⟨sameSize.trans namedAfter.widths, sameNames.trans namedAfter.names⟩, reaches.trans step⟩

end Rules

section Openings

variable {reading : Reading} {rest : List Char}

theorem lex_opening
    (flags : Flags)
    (input : Input) :
    lex flags (.plain '(') input = lexOpening flags input := by
  unfold lex lexPlain
  simp [Reading.isLayout, lexSign]

/-- What an opening parenthesis and the sign behind it ask for. -/
theorem lexOpening_eq
    {c : Char}
    (plain : c ≠ '\\')
    (sound : rest ≠ ['\\'])
    (flags : Flags)
    (pos : Nat) :
    lexOpening flags ⟨'?' :: c :: rest, pos⟩ =
      lexExtension flags (.plain c) ⟨rest, pos + 2⟩ := by
  have question : Input.take? ⟨'?' :: c :: rest, pos⟩ '?' = .ok (some ⟨c :: rest, pos + 1⟩) :=
    Input.take?_plain rfl (by decide) fun same => plain (List.cons.inj same).1
  have next : Input.next? ⟨c :: rest, pos + 1⟩ = .ok (some (.plain c, ⟨rest, pos + 2⟩)) :=
    Input.next?_plain rfl plain sound
  unfold lexOpening
  rw [question]
  dsimp only [bind, Except.bind]
  rw [next]

theorem reaches_opening
    {c : Char}
    {post : List Char}
    {last : Nat}
    {action : Action}
    (starts : reading.input.rest = '(' :: '?' :: c :: rest)
    (plain : c ≠ '\\')
    (sound : rest ≠ ['\\'])
    (asked : lexExtension reading.flags (.plain c) ⟨rest, reading.input.pos + 1 + 2⟩ =
      .ok (action, ⟨post, last⟩))
    (enabled : Enabled reading action) :
    ∃ next, Acts reading reading.input.pos ⟨post, last⟩ action next ∧
      Reading.Reaches reading next := by
  have further : lex reading.flags (.plain '(') ⟨'?' :: c :: rest, reading.input.pos + 1⟩ =
      .ok (action, ⟨post, last⟩) := by
    rw [lex_opening, lexOpening_eq plain sound]
    exact asked
  obtain ⟨next, stepped, acts⟩ :=
    Reading.step_acts (Input.drop_one starts (by simp)) further enabled
  exact ⟨next, acts, .step (Input.peek?_plain starts (by decide)) stepped (.refl _)⟩

theorem reaches_plain
    (starts : reading.input.rest = '(' :: '?' :: ':' :: rest)
    (sound : rest ≠ ['\\']) :
    Reading.Reaches reading
      (reading.enter ⟨rest, reading.input.pos + 1 + 2⟩ .plain reading.input.pos
        reading.flags) := by
  obtain ⟨next, acts, reaches⟩ := reaches_opening starts (by decide) sound rfl trivial
  cases acts
  exact reaches

/-- Flags that are set and cleared for a group. -/
theorem reaches_flagged
    {c : Char}
    {letters : List Char}
    {on off : List InlineFlag}
    {length : Nat}
    (starts : reading.input.rest = '(' :: '?' :: c :: (letters ++ rest))
    (plain : c ≠ '\\')
    (flag : (c == '-' || (InlineFlag.ofLetter? c).isSome) = true)
    (listed : flagList c ⟨letters, 0⟩ = .ok (.scoped on off, ⟨[], length⟩))
    (lettersSound : letters ≠ ['\\'])
    (sound : rest ≠ ['\\']) :
    Reading.Reaches reading
      (reading.enter ⟨rest, length + (reading.input.pos + 1 + 2)⟩ .flagged reading.input.pos
        (reading.flags.change on off)) := by
  obtain ⟨-, -, onto⟩ := stable_flagList (reading.input.pos + 1 + 2) sound c ⟨letters, 0⟩ _ _
    lettersSound listed
  unfold Input.onto at onto
  rw [Nat.zero_add, List.nil_append] at onto
  have asked : lexExtension reading.flags (.plain c)
      ⟨letters ++ rest, reading.input.pos + 1 + 2⟩ =
      .ok (.opening .flagged (reading.flags.change on off),
        ⟨rest, length + (reading.input.pos + 1 + 2)⟩) := by
    rw [Reading.lexExtension_flag flag]
    unfold lexFlags
    rw [onto]
    rfl
  obtain ⟨next, acts, reaches⟩ :=
    reaches_opening starts plain (sound_append lettersSound sound) asked trivial
  cases acts
  exact reaches

/-- A condition on what is ahead, outside all conditions on what is behind. -/
theorem reaches_ahead
    (starts : reading.input.rest = '(' :: '?' :: '=' :: rest)
    (forward : reading.lookbehindFrom = none)
    (sound : rest ≠ ['\\']) :
    Reading.Reaches reading
      (reading.enter ⟨rest, reading.input.pos + 1 + 2⟩ (.look false false true)
        reading.input.pos reading.flags) := by
  obtain ⟨next, acts, reaches⟩ := reaches_opening starts (by decide) sound rfl trivial
  cases acts
  have entered : reading.enterLook ⟨rest, reading.input.pos + 1 + 2⟩ reading.input.pos false false =
      reading.enter ⟨rest, reading.input.pos + 1 + 2⟩
        (.look false false reading.lookbehindFrom.isNone) reading.input.pos reading.flags := rfl
  rw [entered, forward] at reaches
  exact reaches

/-- What a group that captures nothing starts with, and the flags in it. -/
inductive Opens (flags : Flags) : List Char → Opener → Flags → Prop where
  | plain : Opens flags ['(', '?', ':'] .plain flags
  | ahead : Opens flags ['(', '?', '='] (.look false false true) flags
  | flagged {c : Char} {letters : List Char} {on off : List InlineFlag} {length : Nat} :
      (c == '-' || (InlineFlag.ofLetter? c).isSome) = true → letters ≠ ['\\'] →
      flagList c ⟨letters, 0⟩ = .ok (.scoped on off, ⟨[], length⟩) →
      Opens flags ('(' :: '?' :: c :: letters) .flagged (flags.change on off)

theorem Opens.mere
    {flags inner : Flags}
    {signs : List Char}
    {opener : Opener}
    (opens : Opens flags signs opener inner) :
    opener.Mere := by
  cases opens with
  | plain => exact Or.inl rfl
  | ahead => exact Or.inr (Or.inr (Or.inl rfl))
  | flagged => exact Or.inr (Or.inl rfl)

theorem Opens.reaches
    {inner : Flags}
    {signs : List Char}
    {opener : Opener}
    (opens : Opens reading.flags signs opener inner)
    (starts : reading.input.rest = signs ++ rest)
    (forward : reading.lookbehindFrom = none)
    (sound : rest ≠ ['\\']) :
    ∃ pos, Reading.Reaches reading (reading.enter ⟨rest, pos⟩ opener reading.input.pos inner) := by
  cases opens with
  | plain => exact ⟨_, reaches_plain starts sound⟩
  | ahead => exact ⟨_, reaches_ahead starts forward sound⟩
  | @flagged c letters on off length flag lettersSound listed =>
      have plain : c ≠ '\\' := by
        rintro rfl
        cases flag
      exact ⟨_, reaches_flagged starts plain flag listed lettersSound sound⟩

/-- Characters that do not end a name. -/
def NamePlain (name : List Char) : Prop :=
  ∀ c ∈ name, c ≠ '\\' ∧ c ≠ '>'

theorem takeUntilFrom_name
    {what : String}
    {name found : List Char}
    {steps pos : Nat}
    (plain : NamePlain name)
    (some : found ++ name ≠ [])
    (enough : name.length < steps)
    (sound : rest ≠ ['\\']) :
    Input.takeUntilFrom '>' what steps found ⟨name ++ '>' :: rest, pos⟩ =
      .ok (found.reverse ++ name, ⟨rest, pos + name.length + 1⟩) := by
  induction name generalizing found steps pos with
  | nil =>
      obtain ⟨more, rfl⟩ : ∃ more, steps = more + 1 := ⟨steps - 1, by simp at enough; omega⟩
      have next : Input.next? ⟨'>' :: rest, pos⟩ = .ok (.some (.plain '>', ⟨rest, pos + 1⟩)) :=
        Input.next?_plain rfl (by decide) sound
      have more : found.isEmpty = false := by
        cases found with
        | nil => exact absurd rfl some
        | cons c others => rfl
      unfold Input.takeUntilFrom
      rw [List.nil_append, next]
      dsimp only
      rw [if_pos rfl, more, List.append_nil]
      rfl
  | cons c others inductionHypothesis =>
      obtain ⟨more, rfl⟩ : ∃ more, steps = more + 1 := ⟨steps - 1, by simp at enough; omega⟩
      have notLast := plain c List.mem_cons_self
      have next : Input.next? ⟨c :: (others ++ '>' :: rest), pos⟩ =
          .ok (.some (.plain c, ⟨others ++ '>' :: rest, pos + 1⟩)) :=
        Input.next?_plain rfl notLast.1 (ne_backslash_of_append (by simp))
      have later : Input.takeUntilFrom '>' what more (c :: found)
          ⟨others ++ '>' :: rest, pos + 1⟩ =
          .ok ((c :: found).reverse ++ others, ⟨rest, pos + 1 + others.length + 1⟩) :=
        inductionHypothesis (fun d member => plain d (List.mem_cons_of_mem _ member)) (by simp)
          (by simp at enough; omega)
      unfold Input.takeUntilFrom
      rw [List.cons_append, next]
      dsimp only
      rw [if_neg (by simp [notLast.2])]
      refine later.trans ?_
      simp
      omega

theorem lexNamed_name
    {name : List Char}
    (plain : NamePlain name)
    (isName : Text.isName name = true)
    (sound : rest ≠ ['\\'])
    (pos : Nat) :
    lexNamed ⟨'<' :: (name ++ '>' :: rest), pos⟩ =
      .ok (.capture (some name), ⟨rest, pos + 1 + name.length + 1⟩) := by
  have next : Input.next? ⟨'<' :: (name ++ '>' :: rest), pos⟩ =
      .ok (.some (.plain '<', ⟨name ++ '>' :: rest, pos + 1⟩)) :=
    Input.next?_plain rfl (by decide) (ne_backslash_of_append (by simp))
  have nonempty : [] ++ name ≠ [] := by
    rintro rfl
    cases isName
  have read : Reading.readName ⟨name ++ '>' :: rest, pos + 1⟩ '>' =
      .ok (name, ⟨rest, pos + 1 + name.length + 1⟩) := by
    unfold Reading.readName Input.takeUntil
    rw [takeUntilFrom_name plain nonempty (by simp) sound]
    dsimp only [bind, Except.bind, List.reverse_nil, List.nil_append]
    rw [if_pos isName]
  exact bind_eq_ok.mpr ⟨_, next, bind_eq_ok.mpr ⟨_, read, rfl⟩⟩

/-- A group with a name of its own. -/
theorem reaches_capture
    {name : List Char}
    (starts : reading.input.rest = '(' :: '?' :: 'P' :: '<' :: (name ++ '>' :: rest))
    (plain : NamePlain name)
    (isName : Text.isName name = true)
    (new : reading.groups.names.lookup name = none)
    (sound : rest ≠ ['\\']) :
    ∃ pos groups, groups.names = reading.groups.names ++ [(name, reading.groups.widths.size)] ∧
      groups.widths.size = reading.groups.widths.size + 1 ∧
      Reading.Reaches reading
        ({ reading with groups := groups }.enter ⟨rest, pos⟩
          (.capture reading.groups.widths.size) reading.input.pos reading.flags) := by
  have asked := lexNamed_name plain isName sound (reading.input.pos + 1 + 2)
  obtain ⟨next, acts, reaches⟩ :=
    reaches_opening starts (by decide) (by simp) asked new
  cases acts with
  | capture _ _ entered =>
      unfold Reading.enterCapture at entered
      dsimp only at entered
      rw [new] at entered
      cases entered
      exact ⟨_, _, rfl, Array.size_push _, reaches⟩

end Openings

/-! ## Groups as pieces -/

section Groups

variable {deep : Bool} {flags inner : Flags} {before after : List (List Char × Nat)}
  {piece post : List Char} {branches : List (List Item)} {reading : Reading}

/-- A group that captures nothing, with anything behind it. -/
theorem Splits.reaches_group
    {signs : List Char}
    {opener : Opener}
    (splits : Splits true inner before after piece branches)
    (opens : Opens flags signs opener inner)
    (ready : Ready deep flags before reading)
    (starts : reading.input.rest = signs ++ piece ++ [')'] ++ post)
    (sound : post ≠ ['\\']) :
    ∃ pos groups, groups.Named after ∧
      Reading.Reaches reading
        (reading.goneOn post pos reading.level.branches
          (groupEntry opener inner branches :: reading.level.entries) groups) := by
  have same : reading.flags = flags := ready.flags
  have here : Opens reading.flags signs opener inner := by
    rw [same]
    exact opens
  have inside : reading.input.rest = signs ++ (piece ++ ')' :: post) := by
    rw [starts]
    simp
  obtain ⟨pos, entered⟩ :=
    here.reaches inside ready.forward (ne_backslash_of_append (by simp))
  obtain ⟨last, groups, named, closed⟩ :=
    splits.reaches_close opens.mere reading ready.named ready.forward sound pos reading.input.pos
  exact ⟨last, groups, named, entered.trans closed⟩

theorem Splits.group
    (splits : Splits true flags before after piece branches) :
    Adds deep flags before after (Pattern.group piece)
      [.bundle (alternatives flags branches)] := by
  refine ⟨by simp [Pattern.group], ?_⟩
  intro reading post ready starts quiet
  exact splits.reaches_group .plain ready starts quiet.notEscape

theorem lex_sign
    {sign : Char}
    (isSign : sign = '?' ∨ sign = '\x7b')
    (flags : Flags)
    (input : Input) :
    lex flags (.plain sign) input = lexRepeat flags sign input := by
  rcases isSign with rfl | rfl
  · unfold lex lexPlain
    simp [Reading.isLayout, lexSign]
  · unfold lex lexPlain
    simp [Reading.isLayout, lexSign]

/-- A repeat of the entry before, whatever follows it. -/
theorem reaches_repeating
    (reading : Reading)
    {sign : Char}
    {rest : List Char}
    {low high last : Nat}
    {greed : Greed}
    {entry : Entry}
    {entries : List Entry}
    {body : Part}
    (plain : sign ≠ '\\')
    (sound : rest ≠ ['\\'])
    (starts : reading.input.rest = sign :: rest)
    (asked : lex reading.flags (.plain sign) ⟨rest, reading.input.pos + 1⟩ =
      .ok (.repeating low high greed, ⟨post, last⟩))
    (listed : reading.level.entries = entry :: entries)
    (repeatable : entry.repeatable 0 = .ok body) :
    Reading.Reaches reading
      (reading.goneOn post last reading.level.branches
        (.single (.repeating reading.flags greed low high body) :: entries) reading.groups) := by
  obtain ⟨next, stepped, acts⟩ :=
    Reading.step_acts (Input.drop_one starts sound) asked
      ⟨entry, entries, 0, body, listed, repeatable⟩
  have peeked := Input.peek?_plain starts plain
  cases acts with
  | repeating _ _ _ other before place otherBody otherListed otherRepeatable =>
      rw [listed] at otherListed
      cases otherListed
      have same := repeatable_place repeatable place
      rw [otherRepeatable] at same
      cases same
      exact .step peeked stepped (.refl _)

/-- A repeat of the entry before. -/
theorem reaches_repeat
    (reading : Reading)
    {sign : Char}
    {bounds : List Char}
    {low high length : Nat}
    {greed : Greed}
    {entry : Entry}
    {entries : List Entry}
    {body : Part}
    (isSign : sign = '?' ∨ sign = '\x7b')
    (sound : bounds ≠ ['\\'])
    (read : lexRepeat reading.flags sign ⟨bounds, 0⟩ =
      .ok (.repeating low high greed, ⟨[], length⟩))
    (starts : reading.input.rest = sign :: (bounds ++ post))
    (listed : reading.level.entries = entry :: entries)
    (repeatable : entry.repeatable 0 = .ok body)
    (quiet : Quiet post) :
    Reading.Reaches reading
      (reading.goneOn post (length + (reading.input.pos + 1)) reading.level.branches
        (.single (.repeating reading.flags greed low high body) :: entries) reading.groups) := by
  have plain : sign ≠ '\\' := by
    rcases isSign with rfl | rfl <;> decide
  obtain ⟨-, -, onto⟩ := stable_lexRepeat (reading.input.pos + 1) quiet reading.flags sign
    ⟨bounds, 0⟩ _ _ sound read
  unfold Input.onto at onto
  rw [Nat.zero_add, List.nil_append] at onto
  have asked : lex reading.flags (.plain sign) ⟨bounds ++ post, reading.input.pos + 1⟩ =
      .ok (.repeating low high greed, ⟨post, length + (reading.input.pos + 1)⟩) := by
    rw [lex_sign isSign]
    exact onto
  exact reaches_repeating reading plain (sound_append sound quiet.notEscape) starts asked listed
    repeatable

/-- A group that is repeated, with the sign of the repeat and its bounds. -/
theorem Splits.repeated
    (splits : Splits true flags before after piece branches)
    {sign : Char}
    {bounds : List Char}
    {low high length : Nat}
    {greed : Greed}
    (isSign : sign = '?' ∨ sign = '\x7b')
    (sound : bounds ≠ ['\\'])
    (read : lexRepeat flags sign ⟨bounds, 0⟩ =
      .ok (.repeating low high greed, ⟨[], length⟩)) :
    Adds deep flags before after (Pattern.group piece ++ sign :: bounds)
      [.single (.repeating flags greed low high (.ofItems (alternatives flags branches)))] := by
  refine ⟨by simp [Pattern.group], ?_⟩
  intro reading post ready starts quiet
  rw [List.append_assoc, List.cons_append] at starts
  have signPlain : sign ≠ '\\' := by
    rcases isSign with rfl | rfl <;> decide
  obtain ⟨pos, groups, named, reaches⟩ := splits.reaches_group .plain ready starts
    (fun same => signPlain (List.cons.inj same).1)
  rw [← ready.flags] at read reaches ⊢
  have step := reaches_repeat
    (reading.goneOn (sign :: (bounds ++ post)) pos reading.level.branches
      (.bundle (alternatives reading.level.flags branches) :: reading.level.entries) groups)
    isSign sound read rfl rfl rfl quiet
  exact ⟨_, groups, named, reaches.trans step⟩

/-- A group with flags of its own. -/
theorem Splits.flagged
    {c : Char}
    {letters : List Char}
    {on off : List InlineFlag}
    {length : Nat}
    (splits : Splits true (flags.change on off) before after piece branches)
    (flag : (c == '-' || (InlineFlag.ofLetter? c).isSome) = true)
    (listed : flagList c ⟨letters, 0⟩ = .ok (.scoped on off, ⟨[], length⟩))
    (sound : letters ≠ ['\\']) :
    Adds deep flags before after ('(' :: '?' :: c :: (letters ++ (piece ++ [')'])))
      [.single (.scoped (alternatives (flags.change on off) branches))] := by
  refine ⟨by simp, ?_⟩
  intro reading post ready starts quiet
  have opens : Opens flags ('(' :: '?' :: c :: letters) .flagged (flags.change on off) :=
    .flagged flag sound listed
  refine splits.reaches_group opens ready ?_ quiet.notEscape
  rw [starts]
  simp

/-- A group with a name of its own. -/
theorem Splits.captured
    {name : List Char}
    (splits : Splits true flags (before ++ [(name, before.length + 1)]) after piece branches)
    (plain : NamePlain name)
    (isName : Text.isName name = true)
    (new : before.lookup name = none) :
    Adds deep flags before after ('(' :: '?' :: 'P' :: '<' :: (name ++ '>' :: (piece ++ [')'])))
      [.single (.captured (before.length + 1) (alternatives flags branches))] := by
  refine ⟨by simp, ?_⟩
  intro reading post ready starts quiet
  have opens : reading.input.rest =
      '(' :: '?' :: 'P' :: '<' :: (name ++ '>' :: (piece ++ ')' :: post)) := by
    rw [starts]
    simp
  have known := ready.named
  rw [← known.names] at new
  obtain ⟨pos, groups, names, widths, entered⟩ :=
    reaches_capture opens plain isName new (ne_backslash_of_append (by simp))
  rw [known.names, known.widths] at names
  rw [known.widths] at widths entered
  have same : reading.flags = flags := ready.flags
  rw [same] at entered
  have mere : Opener.Mere (.capture (before.length + 1)) := Or.inr (Or.inr (Or.inr ⟨_, rfl⟩))
  have inside : Groups.Named groups (before ++ [(name, before.length + 1)]) :=
    ⟨by rw [widths, List.length_append]; rfl, names⟩
  obtain ⟨last, final, named, closed⟩ :=
    splits.reaches_close mere { reading with groups := groups } inside ready.forward
      quiet.notEscape pos reading.input.pos
  exact ⟨last, final, named, entered.trans closed⟩

end Groups

end NoticeScan.Regex
