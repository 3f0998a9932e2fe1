import Mathlib
import NoticeScan.Text.Utf8

/-!
# What UTF-8 bytes are read as

A sequence of bytes is well formed when it is the encoding of a character. The grammar
`Utf8.Reads` reads a whole string of bytes: a well-formed sequence is its character, and every
byte at which none starts is a stray byte. The grammar `Utf8.Settles` reads a string that may go
on, and leaves an end of it open that can still become a well-formed sequence.

The machine agrees with both: fed in any pieces, it hands out what is settled and keeps what is
open.
-/

namespace NoticeScan.Text.Utf8

/-- What a whole string of bytes is read as. -/
inductive Reads : List UInt8 → List Glyph → Prop
  | nil : Reads [] []
  | char (c : Char) {rest : List UInt8} {glyphs : List Glyph} :
      Reads rest glyphs → Reads (encodeChar c ++ rest) (.char c :: glyphs)
  | stray {b : UInt8} {rest : List UInt8} {glyphs : List Glyph} :
      (∀ c, ¬ encodeChar c <+: b :: rest) →
      Reads rest glyphs → Reads (b :: rest) (.stray b :: glyphs)

/-- Some bytes are the start of a well-formed sequence, but not all of it. -/
def IsOpen (bytes : List UInt8) : Prop :=
  ∃ c, bytes <+: encodeChar c ∧ bytes ≠ encodeChar c

/-- What a string of bytes is read as that may go on, and the end of it that is still open. -/
inductive Settles : List UInt8 → List Glyph → List UInt8 → Prop
  | leave {bytes : List UInt8} : bytes = [] ∨ IsOpen bytes → Settles bytes [] bytes
  | char (c : Char) {rest left : List UInt8} {glyphs : List Glyph} :
      Settles rest glyphs left → Settles (encodeChar c ++ rest) (.char c :: glyphs) left
  | stray {b : UInt8} {rest left : List UInt8} {glyphs : List Glyph} :
      (∀ c, ¬ encodeChar c <+: b :: rest) → ¬ IsOpen (b :: rest) →
      Settles rest glyphs left → Settles (b :: rest) (.stray b :: glyphs) left

/-! ## Encodings in numbers -/

/-- The first byte of the encoding of a code point. -/
def leadByte (n : Nat) : Nat :=
  if n < 0x80 then n
  else if n < 0x800 then 0xC0 + n / 64
  else if n < 0x10000 then 0xE0 + n / 4096
  else 0xF0 + n / 262144

/-- The number of bytes behind the first one. -/
def tailLength (n : Nat) : Nat :=
  if n < 0x80 then 0
  else if n < 0x800 then 1
  else if n < 0x10000 then 2
  else 3

/-- The last bytes of the encoding of a code point, as many as asked for. -/
def tailBytes (n : Nat) : Nat → List UInt8
  | 0 => []
  | count + 1 => (0x80 + n / 64 ^ count % 64).toUInt8 :: tailBytes n count

@[simp]
theorem tailBytes_length (n count : Nat) :
    (tailBytes n count).length = count := by
  induction count with
  | zero => rfl
  | succ count inductionHypothesis =>
      rw [tailBytes, List.length_cons, inductionHypothesis]

theorem encodeChar_eq (c : Char) :
    encodeChar c =
      (leadByte c.toNat).toUInt8 :: tailBytes c.toNat (tailLength c.toNat) := by
  unfold encodeChar leadByte tailLength
  by_cases one : c.toNat < 0x80
  · simp [one, tailBytes]
  · by_cases two : c.toNat < 0x800
    · simp [one, two, tailBytes]
    · by_cases three : c.toNat < 0x10000
      · simp [one, two, three, tailBytes]
      · simp [one, two, three, tailBytes]

theorem encodeChar_ne_nil (c : Char) : encodeChar c ≠ [] := by
  rw [encodeChar_eq]
  exact List.cons_ne_nil _ _

/-- Code points of characters are no surrogates and lie in the range of Unicode. -/
theorem toNat_range (c : Char) :
    c.toNat < 0xD800 ∨ (0xDFFF < c.toNat ∧ c.toNat < 0x110000) :=
  c.valid

theorem leadByte_lt (c : Char) : leadByte c.toNat < 256 := by
  have range := toNat_range c
  unfold leadByte
  split_ifs <;> omega

theorem toNat_leadByte (c : Char) :
    (leadByte c.toNat).toUInt8.toNat = leadByte c.toNat := by
  simpa using Nat.mod_eq_of_lt (leadByte_lt c)

theorem toNat_tailByte (n : Nat) :
    (0x80 + n % 64).toUInt8.toNat = 0x80 + n % 64 := by
  have small : 0x80 + n % 64 < 256 := by omega
  simpa using Nat.mod_eq_of_lt small

theorem eq_toUInt8_iff {b : UInt8} {n : Nat} (small : n < 256) :
    n.toUInt8 = b ↔ n = b.toNat := by
  constructor
  · rintro rfl
    simpa using (Nat.mod_eq_of_lt small).symm
  · rintro rfl
    simp

/-- No well-formed sequence starts with a byte from `80` to `C1`. -/
theorem not_prefix_of_tailByte
    {b : UInt8} {rest : List UInt8}
    (low : 0x80 ≤ b.toNat)
    (high : b.toNat < 0xC2)
    (c : Char) :
    ¬ encodeChar c <+: b :: rest := by
  intro isPrefix
  rw [encodeChar_eq, List.cons_prefix_cons] at isPrefix
  have lead := (eq_toUInt8_iff (leadByte_lt c)).1 isPrefix.1
  unfold leadByte at lead
  split_ifs at lead <;> omega

theorem isOpen_head_ge
    {b : UInt8} {rest : List UInt8}
    (isOpen : IsOpen (b :: rest)) :
    0xC2 ≤ b.toNat := by
  obtain ⟨c, isPrefix, notAll⟩ := isOpen
  rw [encodeChar_eq] at isPrefix notAll
  rw [List.cons_prefix_cons] at isPrefix
  have lead := (eq_toUInt8_iff (leadByte_lt c)).1 isPrefix.1.symm
  by_cases one : c.toNat < 0x80
  · refine absurd ?_ notAll
    have noTail : tailLength c.toNat = 0 := if_pos one
    rw [noTail, tailBytes, List.prefix_nil] at isPrefix
    rw [noTail, tailBytes, isPrefix.1, isPrefix.2]
  · unfold leadByte at lead
    split_ifs at lead <;> omega

theorem toNat_ofNat
    {n : Nat}
    (valid : n.isValidChar) :
    (Char.ofNat n).toNat = n := by
  rw [Char.ofNat, dif_pos valid]
  rfl

theorem tailLength_of_leadByte
    {m n : Nat}
    (small : m < 0x110000 ∧ n < 0x110000)
    (same : leadByte m = leadByte n) :
    tailLength m = tailLength n := by
  unfold leadByte at same
  unfold tailLength
  split_ifs at same ⊢ <;> omega

/-- No well-formed sequence is the start of another one. -/
theorem encodeChar_prefix_free
    {c d : Char}
    (isPrefix : encodeChar c <+: encodeChar d) :
    encodeChar c = encodeChar d := by
  apply isPrefix.eq_of_length
  rw [encodeChar_eq, encodeChar_eq, List.cons_prefix_cons] at isPrefix
  have lead : leadByte c.toNat = leadByte d.toNat := by
    rw [← toNat_leadByte c, isPrefix.1, toNat_leadByte d]
  have small : c.toNat < 0x110000 ∧ d.toNat < 0x110000 := by
    have cRange := toNat_range c
    have dRange := toNat_range d
    omega
  rw [encodeChar_eq, encodeChar_eq, List.length_cons, List.length_cons, tailBytes_length,
    tailBytes_length, tailLength_of_leadByte small lead]

theorem tailBytes_injective
    {m n count : Nat}
    (same : tailBytes m count = tailBytes n count) :
    m % 64 ^ count = n % 64 ^ count := by
  induction count with
  | zero =>
      rw [Nat.pow_zero, Nat.mod_one, Nat.mod_one]
  | succ count inductionHypothesis =>
      rw [tailBytes, tailBytes, List.cons.injEq] at same
      have digit : m / 64 ^ count % 64 = n / 64 ^ count % 64 := by
        have bytes := congrArg UInt8.toNat same.1
        rw [toNat_tailByte, toNat_tailByte] at bytes
        omega
      rw [Nat.mod_pow_succ, Nat.mod_pow_succ, digit, inductionHypothesis same.2]

theorem encodeChar_injective
    {c d : Char}
    (same : encodeChar c = encodeChar d) :
    c = d := by
  rw [encodeChar_eq, encodeChar_eq, List.cons.injEq] at same
  have lead : leadByte c.toNat = leadByte d.toNat := by
    rw [← toNat_leadByte c, same.1, toNat_leadByte d]
  have small : c.toNat < 0x110000 ∧ d.toNat < 0x110000 := by
    have cRange := toNat_range c
    have dRange := toNat_range d
    omega
  have length := tailLength_of_leadByte small lead
  have tails := tailBytes_injective (length ▸ same.2)
  have toNat : c.toNat = d.toNat := by
    unfold leadByte at lead
    unfold tailLength at length tails
    split_ifs at lead length tails <;> omega
  rw [← Char.ofNat_toNat c, toNat, Char.ofNat_toNat]

theorem encodeChar_append_injective
    {c d : Char} {rest more : List UInt8}
    (same : encodeChar c ++ rest = encodeChar d ++ more) :
    c = d ∧ rest = more := by
  have encodings : encodeChar c = encodeChar d := by
    rcases List.prefix_or_prefix_of_prefix (List.prefix_append (encodeChar c) rest)
        (same ▸ List.prefix_append (encodeChar d) more) with shorter | longer
    · exact encodeChar_prefix_free shorter
    · exact (encodeChar_prefix_free longer).symm
  rw [encodings] at same
  exact ⟨encodeChar_injective encodings, List.append_cancel_left same⟩

theorem not_prefix_of_isOpen
    {bytes : List UInt8}
    (isOpen : IsOpen bytes)
    (c : Char) :
    ¬ encodeChar c <+: bytes := by
  intro isPrefix
  obtain ⟨d, ahead, notAll⟩ := isOpen
  have same := encodeChar_prefix_free (isPrefix.trans ahead)
  rw [same] at isPrefix
  exact notAll (ahead.eq_of_length_le isPrefix.length_le)

/-! ## The grammars are unambiguous -/

theorem Reads.unique
    {bytes : List UInt8} {glyphs others : List Glyph}
    (reads : Reads bytes glyphs)
    (readsToo : Reads bytes others) :
    glyphs = others := by
  induction reads generalizing others with
  | nil =>
      generalize whole : ([] : List UInt8) = bytes at readsToo
      cases readsToo with
      | nil => rfl
      | char d _ => exact absurd (List.append_eq_nil_iff.1 whole.symm).1 (encodeChar_ne_nil d)
      | stray _ _ => exact absurd whole.symm (List.cons_ne_nil _ _)
  | @char c rest glyphs _ inductionHypothesis =>
      generalize whole : encodeChar c ++ rest = bytes at readsToo
      cases readsToo with
      | nil => exact absurd (List.append_eq_nil_iff.1 whole).1 (encodeChar_ne_nil c)
      | char d readsToo =>
          obtain ⟨rfl, rfl⟩ := encodeChar_append_injective whole
          rw [inductionHypothesis readsToo]
      | stray noPrefix _ => exact absurd ⟨rest, whole⟩ (noPrefix c)
  | @stray b rest glyphs noPrefix _ inductionHypothesis =>
      generalize whole : b :: rest = bytes at readsToo
      cases readsToo with
      | nil => exact absurd whole (List.cons_ne_nil b rest)
      | char d _ => exact absurd ⟨_, whole.symm⟩ (noPrefix d)
      | stray _ readsToo =>
          obtain ⟨rfl, rfl⟩ := List.cons.injEq .. ▸ whole
          rw [inductionHypothesis readsToo]

theorem Settles.unique
    {bytes left leftToo : List UInt8} {glyphs others : List Glyph}
    (settles : Settles bytes glyphs left)
    (settlesToo : Settles bytes others leftToo) :
    glyphs = others ∧ left = leftToo := by
  induction settles generalizing others leftToo with
  | leave isOpen =>
      cases settlesToo with
      | leave => exact ⟨rfl, rfl⟩
      | char c _ =>
          rcases isOpen with empty | isOpen
          · exact absurd (List.append_eq_nil_iff.1 empty).1 (encodeChar_ne_nil c)
          · exact absurd (List.prefix_append _ _) (not_prefix_of_isOpen isOpen c)
      | stray _ notOpen _ =>
          exact absurd (isOpen.resolve_left (List.cons_ne_nil _ _)) notOpen
  | @char c rest left glyphs _ inductionHypothesis =>
      generalize whole : encodeChar c ++ rest = bytes at settlesToo
      cases settlesToo with
      | leave isOpen =>
          rcases isOpen with rfl | isOpen
          · exact absurd (List.append_eq_nil_iff.1 whole).1 (encodeChar_ne_nil c)
          · exact absurd ⟨rest, whole⟩ (not_prefix_of_isOpen isOpen c)
      | char d settlesToo =>
          obtain ⟨rfl, rfl⟩ := encodeChar_append_injective whole
          obtain ⟨rfl, rfl⟩ := inductionHypothesis settlesToo
          exact ⟨rfl, rfl⟩
      | stray noPrefix _ _ => exact absurd ⟨rest, whole⟩ (noPrefix c)
  | @stray b rest left glyphs noPrefix notOpen _ inductionHypothesis =>
      generalize whole : b :: rest = bytes at settlesToo
      cases settlesToo with
      | leave isOpen =>
          subst whole
          exact absurd (isOpen.resolve_left (List.cons_ne_nil _ _)) notOpen
      | char d _ => exact absurd ⟨_, whole.symm⟩ (noPrefix d)
      | stray _ _ settlesToo =>
          obtain ⟨rfl, rfl⟩ := List.cons.injEq .. ▸ whole
          obtain ⟨rfl, rfl⟩ := inductionHypothesis settlesToo
          exact ⟨rfl, rfl⟩

/-! ## Started sequences -/

namespace Partial

/-- Whether the encoding of a code point goes on with a started sequence. -/
def Covers (seq : Partial) (n : Nat) : Prop :=
  n / 64 ^ seq.missing = seq.value ∧
    seq.low ≤ 0x80 + n / 64 ^ (seq.missing - 1) % 64 ∧
    0x80 + n / 64 ^ (seq.missing - 1) % 64 ≤ seq.high

/-- What the machine keeps up about a started sequence: its bytes are the start of just those
encodings that its numbers describe. -/
structure Sound (seq : Partial) : Prop where
  missing_pos : 0 < seq.missing
  bounds : 0x80 ≤ seq.low ∧ seq.high ≤ 0xBF ∧ seq.low ≤ seq.high
  valid : ∀ n, seq.Covers n → n.isValidChar
  covers : ∀ c, seq.bytes <+: encodeChar c → seq.Covers c.toNat
  encode : ∀ c, seq.Covers c.toNat →
    encodeChar c = seq.bytes ++ tailBytes c.toNat seq.missing
  tail : ∃ b rest, seq.bytes = b :: rest ∧ ∀ x ∈ rest, 0x80 ≤ x.toNat ∧ x.toNat < 0xC2

/-- A first byte starts a sound sequence when its numbers describe the code points that are
encoded with it. -/
theorem sound_of_lead
    {b : UInt8} {missing value low high : Nat}
    (missingPos : 0 < missing)
    (bounds : 0x80 ≤ low ∧ high ≤ 0xBF ∧ low ≤ high)
    (covers : ∀ n, leadByte n = b.toNat → n < 0x110000 → (n < 0xD800 ∨ 0xDFFF < n) →
      Covers ⟨[b], missing, value, low, high⟩ n)
    (leads : ∀ n, Covers ⟨[b], missing, value, low, high⟩ n →
      (n < 0xD800 ∨ (0xDFFF < n ∧ n < 0x110000)) ∧
        leadByte n = b.toNat ∧ tailLength n = missing) :
    Sound ⟨[b], missing, value, low, high⟩ where
  missing_pos := missingPos
  bounds := bounds
  valid n covered := (leads n covered).1
  covers c isPrefix := by
    rw [encodeChar_eq, List.cons_prefix_cons] at isPrefix
    have lead := (eq_toUInt8_iff (leadByte_lt c)).1 isPrefix.1.symm
    have range := toNat_range c
    exact covers c.toNat lead (by omega) (by omega)
  encode c covered := by
    obtain ⟨-, lead, length⟩ := leads c.toNat covered
    rw [encodeChar_eq, (eq_toUInt8_iff (leadByte_lt c)).2 lead, length]
    rfl
  tail := ⟨b, [], rfl, by simp⟩

/-- What a byte in range makes of a started sequence that is not yet complete. -/
def extend (seq : Partial) (b : UInt8) : Partial where
  bytes := seq.bytes ++ [b]
  missing := seq.missing - 1
  value := seq.value * 64 + (b.toNat - 0x80)

variable {seq : Partial} {b : UInt8}

theorem covers_step
    {n : Nat}
    (sound : seq.Sound)
    (inRange : seq.low ≤ b.toNat ∧ b.toNat ≤ seq.high) :
    n / 64 ^ (seq.missing - 1) = seq.value * 64 + (b.toNat - 0x80) ↔
      seq.Covers n ∧ 0x80 + n / 64 ^ (seq.missing - 1) % 64 = b.toNat := by
  obtain ⟨count, missing⟩ : ∃ count, seq.missing = count + 1 :=
    ⟨seq.missing - 1, by have positive := sound.missing_pos; omega⟩
  have bounds := sound.bounds
  unfold Covers
  rw [missing, Nat.add_sub_cancel, Nat.pow_succ, ← Nat.div_div_eq_div_mul]
  constructor
  · intro equality
    omega
  · rintro ⟨⟨value, -, -⟩, last⟩
    omega

theorem tailBytes_of_covers
    {n : Nat}
    (sound : seq.Sound)
    (last : 0x80 + n / 64 ^ (seq.missing - 1) % 64 = b.toNat) :
    tailBytes n seq.missing = b :: tailBytes n (seq.missing - 1) := by
  obtain ⟨count, missing⟩ : ∃ count, seq.missing = count + 1 :=
    ⟨seq.missing - 1, by have positive := sound.missing_pos; omega⟩
  rw [missing, Nat.add_sub_cancel] at last
  rw [missing, Nat.add_sub_cancel, tailBytes, last]
  simp

/-- The encodings that go on with a started sequence and a byte behind it. -/
theorem covers_of_encoding
    (sound : seq.Sound)
    {c : Char}
    (isPrefix : seq.bytes ++ [b] <+: encodeChar c) :
    seq.Covers c.toNat ∧ 0x80 + c.toNat / 64 ^ (seq.missing - 1) % 64 = b.toNat := by
  have covered : seq.Covers c.toNat :=
    sound.covers c ((List.prefix_append _ _).trans isPrefix)
  refine ⟨covered, ?_⟩
  obtain ⟨count, missing⟩ : ∃ count, seq.missing = count + 1 :=
    ⟨seq.missing - 1, by have positive := sound.missing_pos; omega⟩
  rw [sound.encode c covered, List.prefix_append_right_inj, missing, tailBytes,
    List.cons_prefix_cons] at isPrefix
  rw [missing, Nat.add_sub_cancel, isPrefix.1, toNat_tailByte]

/-- A byte out of range ends a started sequence: no encoding goes on with both. -/
theorem not_prefix_of_outOfRange
    (sound : seq.Sound)
    (outOfRange : ¬ (seq.low ≤ b.toNat ∧ b.toNat ≤ seq.high))
    (c : Char) :
    ¬ seq.bytes ++ [b] <+: encodeChar c := by
  intro isPrefix
  obtain ⟨⟨-, low, high⟩, last⟩ := covers_of_encoding sound isPrefix
  exact outOfRange ⟨last ▸ low, last ▸ high⟩

theorem isOpen_of_sound
    (sound : seq.Sound) :
    IsOpen seq.bytes := by
  obtain ⟨positive, bounds⟩ := sound.missing_pos, sound.bounds
  have small : seq.low < 256 := by omega
  obtain ⟨b, lowByte⟩ : ∃ b : UInt8, b.toNat = seq.low :=
    ⟨seq.low.toUInt8, by simpa using small⟩
  have covered :=
    (covers_step (n := (seq.value * 64 + (b.toNat - 0x80)) * 64 ^ (seq.missing - 1)) sound
      (by omega)).1 (Nat.mul_div_cancel _ (Nat.pow_pos (by decide)))
  have toNat := toNat_ofNat (sound.valid _ covered.1)
  have encode := sound.encode _ (toNat.symm ▸ covered.1)
  refine ⟨_, ⟨_, encode.symm⟩, ?_⟩
  intro all
  have lengths := congrArg List.length (all.trans encode)
  rw [List.length_append, tailBytes_length] at lengths
  omega

theorem extend_sound
    (sound : seq.Sound)
    (inRange : seq.low ≤ b.toNat ∧ b.toNat ≤ seq.high)
    (incomplete : seq.missing ≠ 1) :
    (seq.extend b).Sound where
  missing_pos := by
    have positive := sound.missing_pos
    change 0 < seq.missing - 1
    omega
  bounds := ⟨Nat.le_refl _, Nat.le_refl _, by change 0x80 ≤ 0xBF; decide⟩
  valid n covered :=
    sound.valid n ((covers_step sound inRange).1 covered.1).1
  covers c isPrefix := by
    have both := covers_of_encoding sound isPrefix
    refine ⟨(covers_step sound inRange).2 both, ?_, ?_⟩
    · change 0x80 ≤ _
      omega
    · change _ ≤ 0xBF
      omega
  encode c covered := by
    obtain ⟨both, last⟩ := (covers_step sound inRange).1 covered.1
    rw [sound.encode c both, tailBytes_of_covers sound last]
    change _ = (seq.bytes ++ [b]) ++ tailBytes c.toNat (seq.missing - 1)
    rw [List.append_assoc, List.singleton_append]
  tail := by
    obtain ⟨first, rest, bytes, inTail⟩ := sound.tail
    have bounds := sound.bounds
    refine ⟨first, rest ++ [b], ?_, ?_⟩
    · change seq.bytes ++ [b] = _
      rw [bytes, List.cons_append]
    · intro x member
      rcases List.mem_append.1 member with old | new
      · exact inTail x old
      · rw [List.mem_singleton.1 new]
        omega

/-- The last byte of a sequence completes the encoding of the character that is handed out. -/
theorem encodeChar_of_complete
    (sound : seq.Sound)
    (inRange : seq.low ≤ b.toNat ∧ b.toNat ≤ seq.high)
    (complete : seq.missing = 1) :
    encodeChar (Char.ofNat (seq.value * 64 + (b.toNat - 0x80))) = seq.bytes ++ [b] := by
  have step := covers_step (n := seq.value * 64 + (b.toNat - 0x80)) sound inRange
  rw [complete, Nat.sub_self, Nat.pow_zero, Nat.div_one] at step
  obtain ⟨covered, last⟩ := step.1 rfl
  have toNat := toNat_ofNat (sound.valid _ covered)
  rw [sound.encode _ (toNat.symm ▸ covered), toNat, tailBytes_of_covers sound, complete]
  · rfl
  · simpa [complete] using last

end Partial

/-! ## The first byte of a sequence -/

theorem not_prefix_of_highByte
    {b : UInt8} {rest : List UInt8}
    (high : 0xF4 < b.toNat)
    (c : Char) :
    ¬ encodeChar c <+: b :: rest := by
  intro isPrefix
  rw [encodeChar_eq, List.cons_prefix_cons] at isPrefix
  have lead := (eq_toUInt8_iff (leadByte_lt c)).1 isPrefix.1
  have range := toNat_range c
  unfold leadByte at lead
  split_ifs at lead <;> omega

theorem isOpen_head_le
    {b : UInt8} {rest : List UInt8}
    (isOpen : IsOpen (b :: rest)) :
    b.toNat ≤ 0xF4 := by
  obtain ⟨c, isPrefix, -⟩ := isOpen
  rw [encodeChar_eq, List.cons_prefix_cons] at isPrefix
  have lead := (eq_toUInt8_iff (leadByte_lt c)).1 isPrefix.1.symm
  have range := toNat_range c
  unfold leadByte at lead
  split_ifs at lead <;> omega

/-- What the machine does with a byte where a sequence may start. -/
inductive Starts (b : UInt8) : List Glyph × State → Prop
  | char {c : Char} : encodeChar c = [b] → Starts b ([.char c], none)
  | stray : (b.toNat < 0xC2 ∧ 0x80 ≤ b.toNat) ∨ 0xF4 < b.toNat → Starts b ([.stray b], none)
  | lead {seq : Partial} : seq.bytes = [b] → seq.Sound → Starts b ([], some seq)

theorem encodeChar_ascii
    {b : UInt8}
    (ascii : b.toNat < 0x80) :
    encodeChar (Char.ofNat b.toNat) = [b] := by
  have toNat : (Char.ofNat b.toNat).toNat = b.toNat :=
    toNat_ofNat (Or.inl (by omega))
  rw [encodeChar_eq, toNat, leadByte, tailLength, if_pos ascii, if_pos ascii]
  simp [tailBytes]

theorem start_starts (b : UInt8) : Starts b (start b) := by
  have bound := b.toNat_lt
  unfold start
  simp only [beq_iff_eq]
  split_ifs with ascii tail two e0 ed three f0 f4 four
  · exact .char (encodeChar_ascii ascii)
  · exact .stray (Or.inl ⟨tail, by omega⟩)
  all_goals first
    | exact .stray (Or.inr (by omega))
    | refine .lead rfl (Partial.sound_of_lead (by decide) (by decide) ?_ ?_)
  all_goals
    simp only [Partial.Covers, leadByte, tailLength]
    intro n
    split_ifs <;> omega

theorem Starts.no_encoding
    {b : UInt8} {rest : List UInt8}
    (outside : (b.toNat < 0xC2 ∧ 0x80 ≤ b.toNat) ∨ 0xF4 < b.toNat)
    (c : Char) :
    ¬ encodeChar c <+: b :: rest := by
  rcases outside with ⟨low, high⟩ | high
  · exact not_prefix_of_tailByte high low c
  · exact not_prefix_of_highByte high c

theorem Starts.not_isOpen
    {b : UInt8} {rest : List UInt8}
    (outside : (b.toNat < 0xC2 ∧ 0x80 ≤ b.toNat) ∨ 0xF4 < b.toNat) :
    ¬ IsOpen (b :: rest) := by
  intro isOpen
  have low := isOpen_head_ge isOpen
  have high := isOpen_head_le isOpen
  omega

/-! ## The machine -/

/-- The bytes of a started sequence. -/
def pending : State → List UInt8
  | none => []
  | some seq => seq.bytes

/-- The states that the machine reaches. -/
def Reachable : State → Prop
  | none => True
  | some seq => seq.Sound

theorem abandon_eq (state : State) :
    abandon state = (pending state).map .stray := by
  cases state with
  | none => rfl
  | some seq => rfl

theorem feedFrom_eq
    (state : State) (found : List Glyph) (bytes : List UInt8) :
    feedFrom state found bytes =
      (found.reverse ++ (feed state bytes).1, (feed state bytes).2) := by
  unfold feed
  induction bytes generalizing state found with
  | nil =>
      simp [feedFrom]
  | cons b rest inductionHypothesis =>
      simp only [feedFrom]
      rw [inductionHypothesis, inductionHypothesis _ (_ ++ [])]
      simp

@[simp]
theorem feed_nil (state : State) : feed state [] = ([], state) :=
  rfl

theorem feed_cons (state : State) (b : UInt8) (rest : List UInt8) :
    feed state (b :: rest) =
      ((step state b).1 ++ (feed (step state b).2 rest).1,
        (feed (step state b).2 rest).2) := by
  simp only [feed, feedFrom]
  rw [feedFrom_eq]
  simp [feed]

/-- It makes no difference in which pieces the bytes arrive. -/
theorem feed_append (state : State) (first second : List UInt8) :
    feed state (first ++ second) =
      ((feed state first).1 ++ (feed (feed state first).2 second).1,
        (feed (feed state first).2 second).2) := by
  induction first generalizing state with
  | nil =>
      simp
  | cons b rest inductionHypothesis =>
      rw [List.cons_append, feed_cons, feed_cons, inductionHypothesis]
      simp

/-- Bytes that only ever go on with a sequence are stray where none has been started. -/
theorem Settles.stray_tail
    {bytes tail left : List UInt8} {glyphs : List Glyph}
    (settles : Settles bytes glyphs left)
    (inTail : ∀ x ∈ tail, 0x80 ≤ x.toNat ∧ x.toNat < 0xC2) :
    Settles (tail ++ bytes) (tail.map .stray ++ glyphs) left := by
  induction tail with
  | nil =>
      exact settles
  | cons x rest inductionHypothesis =>
      have outside := And.symm (inTail x List.mem_cons_self)
      exact .stray (Starts.no_encoding (Or.inl outside)) (Starts.not_isOpen (Or.inl outside))
        (inductionHypothesis fun y member => inTail y (List.mem_cons_of_mem x member))

theorem Partial.Sound.stray_all
    {seq : Partial} {b : UInt8} {rest left : List UInt8} {glyphs : List Glyph}
    (sound : seq.Sound)
    (outOfRange : ¬ (seq.low ≤ b.toNat ∧ b.toNat ≤ seq.high))
    (settles : Settles (b :: rest) glyphs left) :
    Settles (seq.bytes ++ b :: rest) (seq.bytes.map .stray ++ glyphs) left := by
  have dead := Partial.not_prefix_of_outOfRange sound outOfRange
  have ahead : seq.bytes ++ [b] <+: seq.bytes ++ b :: rest := by
    rw [List.prefix_append_right_inj]
    exact ⟨rest, rfl⟩
  have noPrefix : ∀ c, ¬ encodeChar c <+: seq.bytes ++ b :: rest := by
    intro c isPrefix
    rcases List.prefix_or_prefix_of_prefix isPrefix ahead with shorter | longer
    · rcases List.prefix_concat_iff.1 shorter with all | part
      · exact dead c (all ▸ List.prefix_refl _)
      · exact not_prefix_of_isOpen (Partial.isOpen_of_sound sound) c part
    · exact dead c longer
  have notOpen : ¬ IsOpen (seq.bytes ++ b :: rest) := by
    rintro ⟨c, isPrefix, -⟩
    exact dead c (ahead.trans isPrefix)
  obtain ⟨x, tail, bytes, inTail⟩ := sound.tail
  rw [bytes] at noPrefix notOpen ⊢
  exact .stray noPrefix notOpen (settles.stray_tail inTail)

theorem settles_start
    {b : UInt8} {rest left : List UInt8} {glyphs : List Glyph} {found : List Glyph}
    {state : State}
    (starts : Starts b (found, state))
    (settles : Settles (pending state ++ rest) glyphs left) :
    Settles (b :: rest) (found ++ glyphs) left := by
  cases starts with
  | @char c encode =>
      have read := Settles.char c settles
      rwa [encode] at read
  | stray outside =>
      exact .stray (Starts.no_encoding outside) (Starts.not_isOpen outside) settles
  | lead bytes sound =>
      rwa [pending, bytes] at settles

theorem reachable_start
    {b : UInt8} {found : List Glyph} {state : State}
    (starts : Starts b (found, state)) :
    Reachable state := by
  cases starts with
  | char => exact trivial
  | stray => exact trivial
  | lead _ sound => exact sound

/-- One byte keeps the state sound, and what is read behind it goes on from what is pending. -/
theorem step_sound
    (state : State) (b : UInt8)
    (reachable : Reachable state) :
    Reachable (step state b).2 ∧
      ∀ rest glyphs left, Settles (pending (step state b).2 ++ rest) glyphs left →
        Settles (pending state ++ b :: rest) ((step state b).1 ++ glyphs) left := by
  cases state with
  | none =>
      exact ⟨reachable_start (start_starts b), fun _ _ _ => settles_start (start_starts b)⟩
  | some seq =>
      by_cases inRange : seq.low ≤ b.toNat ∧ b.toNat ≤ seq.high
      · by_cases complete : seq.missing = 1
        · have result : step (some seq) b =
              ([.char (Char.ofNat (seq.value * 64 + (b.toNat - 0x80)))], none) := by
            simp [step, inRange, complete]
          rw [result]
          refine ⟨trivial, fun rest glyphs left settles => ?_⟩
          have read := Settles.char (Char.ofNat (seq.value * 64 + (b.toNat - 0x80))) settles
          rw [Partial.encodeChar_of_complete reachable inRange complete] at read
          simpa [pending] using read
        · have result : step (some seq) b = ([], some (seq.extend b)) := by
            simp [step, inRange, complete, Partial.extend]
          rw [result]
          refine ⟨Partial.extend_sound reachable inRange complete,
            fun rest glyphs left settles => ?_⟩
          simpa [pending, Partial.extend] using settles
      · have result : step (some seq) b =
            (seq.bytes.map .stray ++ (start b).1, (start b).2) := by
          simp only [step, Bool.and_eq_true, decide_eq_true_eq, inRange, if_false, abandon]
        rw [result]
        refine ⟨reachable_start (start_starts b), fun rest glyphs left settles => ?_⟩
        rw [List.append_assoc]
        exact Partial.Sound.stray_all reachable inRange
          (settles_start (start_starts b) settles)

/-- What the machine hands out is settled, and what it keeps is still open. -/
theorem settles_feed
    (state : State) (bytes : List UInt8)
    (reachable : Reachable state) :
    Reachable (feed state bytes).2 ∧
      Settles (pending state ++ bytes) (feed state bytes).1 (pending (feed state bytes).2) := by
  induction bytes generalizing state with
  | nil =>
      refine ⟨reachable, ?_⟩
      rw [feed_nil, List.append_nil]
      cases state with
      | none => exact .leave (Or.inl rfl)
      | some seq => exact .leave (Or.inr (Partial.isOpen_of_sound reachable))
  | cons b rest inductionHypothesis =>
      obtain ⟨reached, reads⟩ := step_sound state b reachable
      obtain ⟨sound, settles⟩ := inductionHypothesis _ reached
      rw [feed_cons]
      exact ⟨sound, reads _ _ _ settles⟩

/-! ## Whole strings -/

theorem reads_of_isOpen
    {bytes : List UInt8}
    (isOpen : bytes = [] ∨ IsOpen bytes)
    (inTail : ∀ x ∈ bytes.tail, 0x80 ≤ x.toNat ∧ x.toNat < 0xC2) :
    Reads bytes (bytes.map .stray) := by
  cases bytes with
  | nil =>
      exact .nil
  | cons b rest =>
      have noPrefix := not_prefix_of_isOpen (isOpen.resolve_left (List.cons_ne_nil b rest))
      refine .stray noPrefix ?_
      rw [List.tail_cons] at inTail
      clear isOpen noPrefix
      induction rest with
      | nil =>
          exact .nil
      | cons x more inductionHypothesis =>
          have outside := And.symm (inTail x List.mem_cons_self)
          exact .stray (Starts.no_encoding (Or.inl outside))
            (inductionHypothesis fun y member => inTail y (List.mem_cons_of_mem x member))

/-- What is open at the end of a whole string is stray. -/
theorem Settles.reads
    {bytes left : List UInt8} {glyphs : List Glyph}
    (settles : Settles bytes glyphs left)
    (stray : Reads left (left.map .stray)) :
    Reads bytes (glyphs ++ left.map .stray) := by
  induction settles with
  | leave isOpen => exact stray
  | char c _ inductionHypothesis => exact .char c (inductionHypothesis stray)
  | stray noPrefix _ _ inductionHypothesis => exact .stray noPrefix (inductionHypothesis stray)

/-- The machine reads a whole string as the grammar does. -/
theorem reads_decode (bytes : List UInt8) : Reads bytes (decode bytes) := by
  obtain ⟨reachable, settles⟩ := settles_feed none bytes trivial
  change Reads bytes ((feed none bytes).1 ++ abandon (feed none bytes).2)
  rw [abandon_eq]
  refine settles.reads ?_
  cases state : (feed none bytes).2 with
  | none =>
      exact .nil
  | some seq =>
      rw [state] at reachable
      obtain ⟨x, tail, all, inTail⟩ := Partial.Sound.tail reachable
      refine reads_of_isOpen (Or.inr (Partial.isOpen_of_sound reachable)) ?_
      rw [pending, all]
      exact inTail

end NoticeScan.Text.Utf8
