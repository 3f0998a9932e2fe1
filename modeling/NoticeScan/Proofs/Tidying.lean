import NoticeScan.Proofs.Priorities
import NoticeScan.Scan.Normal

/-!
# Tidy texts

Runs of decorations are made single spaces, but not in links. What becomes of a text stays as it is
when the same is done once more: what is changed begins with a decoration and becomes a space, which
no link takes, and within what is left before it a link is found as before. It also stays tidy
without the blanks at its ends.
-/

namespace NoticeScan.Scan

open NoticeScan.Regex NoticeScan.Text

/-! ## Links and what stands between them -/

/-- Lengths of links: what stands behind a stretch has no say in them, something is taken and no
blank is. -/
structure Links (links : Lengths) : Prop where
  isLocal : links.Local
  moving : links.Moving
  taking : links.Taking fun c => isBlank c = false

theorem isDecoration_of_isBlank
    {c : Char}
    (blank : isBlank c = true) :
    isDecoration c = true := by
  simp [isDecoration, blank]

/-- A text and what becomes of it when every run of decorations outside of links is made a space.
`left` is the number of characters that are left of a link, and `inRun` tells that the character
before was a decoration. -/
inductive Tidies (links : Lengths) : (left : Nat) → (inRun : Bool) → List Char → List Char → Prop
  | done {left : Nat} {inRun : Bool} : Tidies links left inRun [] []
  | inside {left : Nat} {inRun : Bool} {c : Char} {rest out : List Char}
      (behind : Tidies links left false rest out) :
      Tidies links (left + 1) inRun (c :: rest) (c :: out)
  | link {left : Nat} {inRun : Bool} {c : Char} {rest out : List Char}
      (starts : (links (c :: rest)).head? = some (left + 1))
      (behind : Tidies links left false rest out) :
      Tidies links 0 inRun (c :: rest) (c :: out)
  | first {c : Char} {rest out : List Char}
      (none : (links (c :: rest)).head? = none)
      (decorates : isDecoration c = true)
      (behind : Tidies links 0 true rest out) :
      Tidies links 0 false (c :: rest) (' ' :: out)
  | again {c : Char} {rest out : List Char}
      (none : (links (c :: rest)).head? = none)
      (decorates : isDecoration c = true)
      (behind : Tidies links 0 true rest out) :
      Tidies links 0 true (c :: rest) out
  | solid {inRun : Bool} {c : Char} {rest out : List Char}
      (none : (links (c :: rest)).head? = none)
      (plain : isDecoration c = false)
      (behind : Tidies links 0 false rest out) :
      Tidies links 0 inRun (c :: rest) (c :: out)

section Tidying

variable {links : Lengths} {left : Nat} {inRun : Bool} {c : Char} {s rest out : List Char}

/-! ### Links -/

/-- A link does not start with a blank. -/
theorem Links.head?_blank
    (are : Links links)
    (blank : isBlank c = true) :
    (links (c :: rest)).head? = none := by
  rw [List.head?_eq_none_iff, List.eq_nil_iff_forall_not_mem]
  intro taken member
  obtain ⟨more, rfl⟩ := Nat.exists_eq_succ_of_ne_zero (Nat.ne_of_gt (are.moving _ taken member))
  have solid : isBlank c = false := (are.taking _ _ member).2 c (by simp)
  rw [blank] at solid
  cases solid

/-- A link ends before the next blank. -/
theorem Links.le_length
    (are : Links links)
    {front other : List Char}
    (stops : other = [] ∨ ∃ more, other = ' ' :: more)
    {taken : Nat}
    (member : taken ∈ links (front ++ other)) :
    taken ≤ front.length := by
  obtain ⟨within, accepted⟩ := are.taking _ taken member
  rcases stops with rfl | ⟨more, rfl⟩
  · rwa [List.append_nil] at within
  · by_contra beyond
    have reached : ' ' ∈ (front ++ ' ' :: more).take taken := by
      obtain ⟨extra, rfl⟩ := Nat.exists_eq_add_of_lt (Nat.lt_of_not_le beyond)
      rw [List.take_append, Nat.add_assoc, Nat.add_sub_cancel_left]
      simp
    cases accepted ' ' reached

/-- The link in front of a text, or that there is none, stays as it is when something else stands
behind it that stops links. -/
theorem Links.head?_eq
    (are : Links links)
    {front back other : List Char}
    {head : Option Nat}
    (starts : (links (front ++ back)).head? = head)
    (fits : ∀ taken ∈ head, taken ≤ front.length)
    (stops : other = [] ∨ ∃ more, other = ' ' :: more) :
    (links (front ++ other)).head? = head := by
  subst head
  exact are.isLocal.head?_eq fits fun _ member => are.le_length stops member

/-! ### What becomes of a text -/

namespace Tidies

theorem unique
    {other : List Char}
    (tidies : Tidies links left inRun s out)
    (tidiesToo : Tidies links left inRun s other) :
    out = other := by
  induction tidies generalizing other with
  | done => cases tidiesToo; rfl
  | inside behind inductionHypothesis =>
      cases tidiesToo with
      | inside behindToo => rw [inductionHypothesis behindToo]
  | link starts behind inductionHypothesis =>
      cases tidiesToo with
      | link startsToo behindToo =>
          rw [starts] at startsToo
          cases startsToo
          rw [inductionHypothesis behindToo]
      | first none => simp [starts] at none
      | again none => simp [starts] at none
      | solid none => simp [starts] at none
  | first none decorates behind inductionHypothesis =>
      cases tidiesToo with
      | link starts => simp [starts] at none
      | first noneToo decoratesToo behindToo => rw [inductionHypothesis behindToo]
      | solid noneToo plain => simp [decorates] at plain
  | again none decorates behind inductionHypothesis =>
      cases tidiesToo with
      | link starts => simp [starts] at none
      | again noneToo decoratesToo behindToo => rw [inductionHypothesis behindToo]
      | solid noneToo plain => simp [decorates] at plain
  | solid none plain behind inductionHypothesis =>
      cases tidiesToo with
      | link starts => simp [starts] at none
      | first noneToo decorates => simp [decorates] at plain
      | again noneToo decorates => simp [decorates] at plain
      | solid noneToo plainToo behindToo => rw [inductionHypothesis behindToo]

theorem length_le
    (tidies : Tidies links left inRun s out) :
    out.length ≤ s.length := by
  induction tidies with
  | done => exact Nat.le_refl 0
  | inside behind inductionHypothesis => exact Nat.succ_le_succ inductionHypothesis
  | link starts behind inductionHypothesis => exact Nat.succ_le_succ inductionHypothesis
  | first none decorates behind inductionHypothesis => exact Nat.succ_le_succ inductionHypothesis
  | again none decorates behind inductionHypothesis => exact Nat.le_succ_of_le inductionHypothesis
  | solid none plain behind inductionHypothesis => exact Nat.succ_le_succ inductionHypothesis

/-- Behind a character that is kept, a text is as it was up to a place where something stops
links, with the whole of the link in front of that place. -/
theorem agrees
    (are : Links links)
    (tidies : Tidies links left inRun s out)
    (start : inRun = false)
    (within : left ≤ s.length) :
    ∃ front back other, s = front ++ back ∧ out = front ++ other ∧ left ≤ front.length ∧
      (other = [] ∨ ∃ more, other = ' ' :: more) := by
  induction tidies with
  | done => exact ⟨[], [], [], rfl, rfl, within, .inl rfl⟩
  | @inside left _ c rest out behind inductionHypothesis =>
      obtain ⟨front, back, other, rfl, rfl, reaches, stops⟩ :=
        inductionHypothesis rfl (Nat.le_of_succ_le_succ within)
      exact ⟨c :: front, back, other, rfl, rfl, Nat.succ_le_succ reaches, stops⟩
  | @link left _ c rest out starts behind inductionHypothesis =>
      have fits := (are.taking _ _ (List.mem_of_head? starts)).1
      obtain ⟨front, back, other, rfl, rfl, -, stops⟩ :=
        inductionHypothesis rfl (Nat.le_of_succ_le_succ fits)
      exact ⟨c :: front, back, other, rfl, rfl, Nat.zero_le _, stops⟩
  | first none decorates behind _ =>
      exact ⟨[], _, _, rfl, rfl, Nat.le_refl 0, .inr ⟨_, rfl⟩⟩
  | again none decorates behind _ => cases start
  | @solid _ c rest out none plain behind inductionHypothesis =>
      obtain ⟨front, back, other, rfl, rfl, -, stops⟩ := inductionHypothesis rfl (Nat.zero_le _)
      exact ⟨c :: front, back, other, rfl, rfl, Nat.zero_le _, stops⟩

/-- What has become of a text stays as it is. -/
theorem fixed
    (are : Links links)
    (tidies : Tidies links left inRun s out)
    (within : left ≤ s.length) :
    Tidies links left inRun out out := by
  induction tidies with
  | done => exact .done
  | inside behind inductionHypothesis =>
      exact .inside (inductionHypothesis (Nat.le_of_succ_le_succ within))
  | @link left _ c rest out starts behind inductionHypothesis =>
      have fits := Nat.le_of_succ_le_succ (are.taking _ _ (List.mem_of_head? starts)).1
      obtain ⟨front, back, other, rfl, rfl, reaches, stops⟩ := behind.agrees are rfl fits
      rw [← List.cons_append] at starts
      have startsToo := are.head?_eq starts
        (fun taken is => Option.some.inj is ▸ Nat.succ_le_succ reaches) stops
      exact .link startsToo (inductionHypothesis fits)
  | first none decorates behind inductionHypothesis =>
      exact .first (are.head?_blank (by decide)) (by decide) (inductionHypothesis (Nat.zero_le _))
  | again none decorates behind inductionHypothesis => exact inductionHypothesis (Nat.zero_le _)
  | @solid _ c rest out none plain behind inductionHypothesis =>
      obtain ⟨front, back, other, rfl, rfl, -, stops⟩ := behind.agrees are rfl (Nat.zero_le _)
      rw [← List.cons_append] at none
      exact .solid (are.head?_eq none nofun stops) plain (inductionHypothesis (Nat.zero_le _))

/-! ### Ends and blanks -/

/-- Where a decoration would be dropped, there is none, and it makes no difference whether one
stands before. -/
theorem afresh
    (tidy : Tidies links 0 true s s) :
    Tidies links 0 false s s := by
  cases tidy with
  | done => exact .done
  | link starts behind => exact .link starts behind
  | again none decorates behind => exact absurd behind.length_le (Nat.not_succ_le_self _)
  | solid none plain behind => exact .solid none plain behind

theorem no_blank
    (are : Links links)
    (tidy : Tidies links 0 true (c :: rest) (c :: rest)) :
    isBlank c = false := by
  rw [← Bool.not_eq_true]
  intro blank
  cases tidy with
  | link starts behind => simp [are.head?_blank blank] at starts
  | again none decorates behind => exact absurd behind.length_le (Nat.not_succ_le_self _)
  | solid none plain behind => simp [isDecoration_of_isBlank blank] at plain

/-- The front of a text is tidy without the space behind it. -/
theorem without_last
    (are : Links links)
    (tidy : Tidies links left inRun (s ++ [' ']) (s ++ [' ']))
    (within : left ≤ s.length) :
    Tidies links left inRun s s := by
  induction s generalizing left inRun with
  | nil =>
      rw [Nat.le_zero.mp within]
      exact .done
  | cons c rest inductionHypothesis =>
      have still {head : Option Nat} (starts : (links (c :: rest ++ [' '])).head? = head)
          (fits : ∀ taken ∈ head, taken ≤ (c :: rest).length) :
          (links (c :: rest)).head? = head := by
        have ends := are.head?_eq starts fits (.inl rfl)
        rwa [List.append_nil] at ends
      rw [List.cons_append] at tidy
      cases tidy with
      | inside behind => exact .inside (inductionHypothesis behind (Nat.le_of_succ_le_succ within))
      | @link left _ _ _ _ starts behind =>
          have stops : [' '] = [] ∨ ∃ more, [' '] = ' ' :: more := .inr ⟨[], rfl⟩
          have fits : left + 1 ≤ (c :: rest).length :=
            are.le_length stops (List.mem_of_head? starts)
          exact .link (still starts fun taken is => Option.some.inj is ▸ fits)
            (inductionHypothesis behind (Nat.le_of_succ_le_succ fits))
      | first none decorates behind =>
          exact .first (still none nofun) decorates (inductionHypothesis behind (Nat.zero_le _))
      | again none decorates behind => exact absurd behind.length_le (Nat.not_succ_le_self _)
      | solid none plain behind =>
          exact .solid (still none nofun) plain (inductionHypothesis behind (Nat.zero_le _))

/-- The blanks of what becomes of a text are spaces, no two of them next to each other. -/
theorem spaces
    (are : Links links)
    (tidies : Tidies links left inRun s out)
    (held : ∀ c ∈ s.take left, isBlank c = false) :
    (∀ c ∈ out, isBlank c = true → c = ' ') ∧
      List.IsChain (fun c d => c = ' ' → d ≠ ' ') out ∧
      (left = 0 → inRun = true → out.head? ≠ some ' ') := by
  have keep {c : Char} {out : List Char} (solid : isBlank c = false)
      (spaced : ∀ d ∈ out, isBlank d = true → d = ' ')
      (apart : List.IsChain (fun c d => c = ' ' → d ≠ ' ') out) :
      (∀ d ∈ c :: out, isBlank d = true → d = ' ') ∧
        List.IsChain (fun c d => c = ' ' → d ≠ ' ') (c :: out) ∧
        (c :: out).head? ≠ some ' ' := by
    have other : c ≠ ' ' := by
      rintro rfl
      cases solid
    refine ⟨List.forall_mem_cons.mpr ⟨?_, spaced⟩, ?_, by simpa using other⟩
    · intro blank
      rw [blank] at solid
      cases solid
    · exact List.isChain_cons.mpr ⟨fun d _ same => absurd same other, apart⟩
  induction tidies with
  | done => simp
  | @inside left _ c rest out behind inductionHypothesis =>
      rw [List.take_succ_cons, List.forall_mem_cons] at held
      obtain ⟨spaced, apart, -⟩ := inductionHypothesis held.2
      obtain ⟨spacedToo, apartToo, -⟩ := keep held.1 spaced apart
      exact ⟨spacedToo, apartToo, nofun⟩
  | @link left _ c rest out starts behind inductionHypothesis =>
      have taken := (are.taking _ _ (List.mem_of_head? starts)).2
      rw [List.take_succ_cons, List.forall_mem_cons] at taken
      obtain ⟨spaced, apart, -⟩ := inductionHypothesis taken.2
      obtain ⟨spacedToo, apartToo, other⟩ := keep taken.1 spaced apart
      exact ⟨spacedToo, apartToo, fun _ _ => other⟩
  | first none decorates behind inductionHypothesis =>
      obtain ⟨spaced, apart, other⟩ := inductionHypothesis (by simp)
      refine ⟨List.forall_mem_cons.mpr ⟨fun _ => rfl, spaced⟩, ?_, nofun⟩
      refine List.isChain_cons.mpr ⟨?_, apart⟩
      rintro d head - rfl
      exact other rfl rfl head
  | again none decorates behind inductionHypothesis => exact inductionHypothesis (by simp)
  | @solid _ c rest out none plain behind inductionHypothesis =>
      obtain ⟨spaced, apart, -⟩ := inductionHypothesis (by simp)
      have solid : isBlank c = false := by
        rw [← Bool.not_eq_true]
        intro blank
        rw [isDecoration_of_isBlank blank] at plain
        cases plain
      obtain ⟨spacedToo, apartToo, other⟩ := keep solid spaced apart
      exact ⟨spacedToo, apartToo, fun _ _ => other⟩

theorem dropWhile
    (are : Links links)
    (tidy : Tidies links 0 false s s) :
    Tidies links 0 false (s.dropWhile isBlank) (s.dropWhile isBlank) := by
  cases s with
  | nil => exact .done
  | cons c rest =>
      cases blank : isBlank c with
      | false =>
          rw [List.dropWhile_cons_of_neg (by simp [blank])]
          exact tidy
      | true =>
          rw [List.dropWhile_cons_of_pos blank]
          have behind : Tidies links 0 true rest rest := by
            cases tidy with
            | link starts behind => simp [are.head?_blank blank] at starts
            | first none decorates behind => exact behind
            | solid none plain behind => simp [isDecoration_of_isBlank blank] at plain
          cases rest with
          | nil => exact .done
          | cons d more =>
              rw [List.dropWhile_cons_of_neg (by simp [behind.no_blank are])]
              exact behind.afresh

theorem rdropWhile
    (are : Links links)
    (tidy : Tidies links 0 false s s) :
    Tidies links 0 false (s.rdropWhile isBlank) (s.rdropWhile isBlank) := by
  obtain rfl | ⟨front, c, rfl⟩ := List.eq_nil_or_concat' s
  · exact .done
  · cases blank : isBlank c with
    | false =>
        rw [List.rdropWhile_concat_neg _ _ _ (by simp [blank])]
        exact tidy
    | true =>
        obtain ⟨spaced, apart, -⟩ := tidy.spaces are (by simp)
        obtain rfl : c = ' ' := spaced c (by simp) blank
        have ofFront := tidy.without_last are (Nat.zero_le _)
        rw [List.rdropWhile_concat_pos _ _ _ blank]
        obtain rfl | ⟨more, d, rfl⟩ := List.eq_nil_or_concat' front
        · exact .done
        · have noBlank : ¬ isBlank d = true := by
            intro blankToo
            have space : d = ' ' := spaced d (by simp) blankToo
            have together := (List.isChain_append.mp apart).2.2
            exact together d (by simp) ' ' (by simp) space rfl
          rw [List.rdropWhile_concat_neg _ _ _ noBlank]
          exact ofFront

/-- A tidy text is tidy without the blanks at its ends. -/
theorem trim
    (are : Links links)
    (tidy : Tidies links 0 false s s) :
    Tidies links 0 false (trim s) (trim s) :=
  (tidy.dropWhile are).rdropWhile are

/-! ### Stretches without links -/

/-- What stands before a link, or at the end of a text, is collapsed. -/
theorem collapsed
    {front back : List Char}
    (tidies : Tidies links 0 false back out)
    (ends : back = [] ∨ (links back).head? ≠ none)
    (none : ∀ place < front.length, (links ((front ++ back).drop place)).head? = none)
    (inRun : Bool) :
    Tidies links 0 inRun (front ++ back) (collapseFrom inRun front ++ out) := by
  induction front generalizing inRun with
  | nil =>
      cases tidies with
      | done => exact .done
      | link starts behind => exact .link starts behind
      | first noLink _ _ => exact absurd noLink (ends.resolve_left (List.cons_ne_nil _ _))
      | solid noLink _ _ => exact absurd noLink (ends.resolve_left (List.cons_ne_nil _ _))
  | cons c rest inductionHypothesis =>
      have here := none 0 (Nat.succ_pos _)
      have behind := inductionHypothesis fun place less => none (place + 1) (Nat.succ_lt_succ less)
      rw [collapseFrom]
      cases decorates : isDecoration c with
      | false => exact .solid here decorates (behind false)
      | true =>
          cases inRun with
          | false => exact .first here decorates (behind true)
          | true => exact .again here decorates (behind true)

/-- What is left of a link is kept. -/
theorem held
    (tidies : Tidies links 0 false s out)
    (front : List Char) :
    Tidies links front.length false (front ++ s) (front ++ out) := by
  induction front with
  | nil => exact tidies
  | cons c rest inductionHypothesis => exact .inside inductionHypothesis

end Tidies

end Tidying

end NoticeScan.Scan
