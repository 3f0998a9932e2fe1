import NoticeScan.Proofs.Window

/-!
# Texts and their bytes

A text without the signs that spell quotation marks is what its own bytes show: none of them is
stray, so a reader does not give up in front of their end, and nothing is replaced.
-/

namespace NoticeScan

open NoticeScan.Text NoticeScan.Reader

/-! ## Reading the bytes of a text -/

theorem Text.Utf8.reads_encode
    (text : List Char) :
    Utf8.Reads (Utf8.encode text) (text.map .char) := by
  induction text with
  | nil => exact .nil
  | cons c rest inductionHypothesis => exact .char c inductionHypothesis

theorem Text.Utf8.decode_encode
    (text : List Char) :
    Utf8.decode (Utf8.encode text) = text.map .char :=
  (Utf8.reads_decode _).unique (Utf8.reads_encode text)

namespace Reader

/-- A text holds no sign that a spelling of a quotation mark opens with. -/
def Quoteless (text : List Char) : Prop :=
  ∀ c ∈ text, opensQuote c = false

variable {text : List Char}

theorem replaceQuotes_quoteless
    (quoteless : Quoteless text) :
    replaceQuotes (text.map .char) = text.map .char := by
  apply replaceQuotes_of_noQuote
  intro tail ends spelling member starts
  obtain ⟨c, rest, rfl, opens, -⟩ := spelling_shape spelling member
  have inside : Glyph.char c ∈ text.map .char :=
    ends.subset (starts.subset List.mem_cons_self)
  obtain ⟨other, among, same⟩ := List.mem_map.mp inside
  cases same
  rw [quoteless c among] at opens
  cases opens

theorem wholeText_encode
    (quoteless : Quoteless text) :
    wholeText (Utf8.encode text) = text := by
  have shownChar : shown ∘ Glyph.char = id := rfl
  rw [wholeText, Utf8.decode_encode, replaceQuotes_quoteless quoteless, List.map_map, shownChar,
    List.map_id]

/-! ## Nothing is stray -/

theorem settled_prefix_decode
    (front back : List UInt8) :
    settled front <+: Utf8.decode (front ++ back) := by
  have decode : Utf8.decode (front ++ back) =
      settled (front ++ back) ++ Utf8.abandon (Utf8.feed none (front ++ back)).2 := rfl
  obtain ⟨glyphs, append⟩ := settled_append front back
  rw [decode, append, List.append_assoc]
  exact List.prefix_append _ _

/-- Bytes from the start of a text are not given up. -/
theorem not_overrun_encode
    {front : List UInt8}
    (starts : front <+: Utf8.encode text) :
    ¬ Overrun front := by
  obtain ⟨back, whole⟩ := starts
  have settles := settled_prefix_decode front back
  rw [whole, Utf8.decode_encode] at settles
  have noStray : (settled front).countP isStray = 0 := by
    rw [List.countP_eq_zero]
    intro glyph member
    obtain ⟨c, -, rfl⟩ := List.mem_map.mp (settles.subset member)
    exact Bool.false_ne_true
  rw [overrun_iff, noStray]
  exact Nat.not_lt_zero _

theorem isStop_encode
    {blocks : List (List UInt8)}
    (whole : blocks.flatten = Utf8.encode text) :
    IsStop blocks blocks.length where
  le := Nat.le_refl _
  before count _ := by
    have starts : (blocks.take count).flatten <+: Utf8.encode text := by
      rw [← whole]
      conv_rhs => rw [← List.take_append_drop count blocks, List.flatten_append]
      exact List.prefix_append _ _
    exact not_overrun_encode starts
  here := Or.inl rfl

/-- A reader of the bytes of a text hands out the text. -/
theorem read_encode
    (quoteless : Quoteless text)
    (name : String) :
    ((ofBytes name (Utf8.encode text)).read (-1)).1 = .ok text.toArray := by
  obtain ⟨blocks, yields, whole⟩ := Source.ofBytes_yields (Utf8.encode text)
  have start : Stands blocks blocks.length 0 [] (ofBytes name (Utf8.encode text)) :=
    stands_start yields name (Utf8.encode text).length
  have all := start.read_all (isStop_encode whole)
  rw [List.take_length, whole, wholeText_encode quoteless] at all
  exact all

end Reader

/-- A scan of the bytes of a text looks at the text, unless that is longer than what the scanner
looks at. -/
theorem Scanner.scanBytes_encode
    {scanner : Scanner}
    {text : List Char}
    (quoteless : Quoteless text)
    (some : text ≠ [])
    (fits : (text.length : Int) ≤ scanner.window)
    (name : String) :
    (scanner.scanBytes name (Utf8.encode text)).1 = scanner.scanWindow (.ofText text) := by
  have positive := List.length_pos_iff.mpr some
  have atLeastOne : 1 ≤ scanner.window := by omega
  obtain ⟨other, all, scanned⟩ := scanBytes_eq atLeastOne name (Utf8.encode text)
  rw [Reader.read_encode quoteless] at all
  have same : text = other := congrArg Array.toList (Except.ok.inj all)
  rw [scanned, ← same, List.take_of_length_le (by omega)]

end NoticeScan
