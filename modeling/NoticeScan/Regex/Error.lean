import NoticeScan.Regex.Node
import NoticeScan.Text.Quoted

/-!
# What can be wrong with a regular expression

Causes, and the wording of each. A fault of the text comes with the place in it; a fault that
shows only once the whole text has been read has none.
-/

namespace NoticeScan.Regex

open NoticeScan.Text

/-- A fault in the text of an expression. -/
inductive Fault where
  | escapeAtEnd
  | badEscape (escape : List Char)
  | incompleteEscape (escape : List Char)
  | octalTooLarge (escape : List Char)
  | unterminatedClass
  | badRange (low high : List Char)
  | nothingToRepeat
  | multipleRepeat
  | bounds
  | unexpectedEnd
  | unknownExtension (opening : List Char)
  | missing (what : String)
  | unterminatedName (closing : Char)
  | badNameCharacter (name : List Char)
  | unknownGroupName (name : List Char)
  | unknownCharacterName (name : List Char)
  | openGroup
  | groupOfSameLookbehind
  | unknownGroup (index : Nat)
  | groupZero
  | thirdBranch
  | unterminatedComment
  | unterminatedGroup
  | unbalanced
  | nameTaken (name : List Char) (index taken : Nat)
  | flagsNotAtStart
  | localeFlag
  | clashingTypeFlags
  | flagsUnfinished
  | unknownFlag
  | missingFlag
  | missingColon
  | typeFlagOff
  | globalFlagOn
  | globalFlagOff
  | flagOnAndOff
  | lookbehindWidth
  | templateRepeat (greed : Greed)
  deriving Repr, DecidableEq

/-- What a repeat is called in a message. -/
def Greed.title : Greed → String
  | .greedy => "MAX_REPEAT"
  | .lazy => "MIN_REPEAT"
  | .possessive => "POSSESSIVE_REPEAT"

/-- A number in decimal digits. -/
def decimal (n : Nat) : List Char :=
  Nat.toDigits 10 n

/-- The wording of a fault. -/
def Fault.message : Fault → List Char
  | .escapeAtEnd => "bad escape (end of pattern)".toList
  | .badEscape escape => "bad escape ".toList ++ escape
  | .incompleteEscape escape => "incomplete escape ".toList ++ escape
  | .octalTooLarge escape =>
      "octal escape value ".toList ++ escape ++ " outside of range 0-0o377".toList
  | .unterminatedClass => "unterminated character set".toList
  | .badRange low high => "bad character range ".toList ++ low ++ '-' :: high
  | .nothingToRepeat => "nothing to repeat".toList
  | .multipleRepeat => "multiple repeat".toList
  | .bounds => "min repeat greater than max repeat".toList
  | .unexpectedEnd => "unexpected end of pattern".toList
  | .unknownExtension opening => "unknown extension ?".toList ++ opening
  | .missing what => "missing ".toList ++ what.toList
  | .unterminatedName closing => "missing ".toList ++ closing :: ", unterminated name".toList
  | .badNameCharacter name => "bad character in group name ".toList ++ quoted name
  | .unknownGroupName name => "unknown group name ".toList ++ quoted name
  | .unknownCharacterName name => "undefined character name ".toList ++ quoted name
  | .openGroup => "cannot refer to an open group".toList
  | .groupOfSameLookbehind =>
      "cannot refer to group defined in the same lookbehind subpattern".toList
  | .unknownGroup index => "invalid group reference ".toList ++ decimal index
  | .groupZero => "bad group number".toList
  | .thirdBranch => "conditional backref with more than two branches".toList
  | .unterminatedComment => "missing ), unterminated comment".toList
  | .unterminatedGroup => "missing ), unterminated subpattern".toList
  | .unbalanced => "unbalanced parenthesis".toList
  | .nameTaken name index taken =>
      "redefinition of group name ".toList ++ quoted name ++ " as group ".toList ++
        decimal index ++ "; was group ".toList ++ decimal taken
  | .flagsNotAtStart => "global flags not at the start of the expression".toList
  | .localeFlag => "bad inline flags: cannot use 'L' flag with a str pattern".toList
  | .clashingTypeFlags =>
      "bad inline flags: flags 'a', 'u' and 'L' are incompatible".toList
  | .flagsUnfinished => "missing -, : or )".toList
  | .unknownFlag => "unknown flag".toList
  | .missingFlag => "missing flag".toList
  | .missingColon => "missing :".toList
  | .typeFlagOff => "bad inline flags: cannot turn off flags 'a', 'u' and 'L'".toList
  | .globalFlagOn => "bad inline flags: cannot turn on global flag".toList
  | .globalFlagOff => "bad inline flags: cannot turn off global flag".toList
  | .flagOnAndOff => "bad inline flags: flag turned on and off".toList
  | .lookbehindWidth => "look-behind requires fixed-width pattern".toList
  | .templateRepeat greed =>
      "internal: unsupported template operator ".toList ++ greed.title.toList

/-- Why a text is no regular expression. -/
inductive Error where
  | syntaxFault (fault : Fault) (position : Option Nat)
  /-- A bound of a repeat is beyond all counting. -/
  | repetitionTooLarge
  /-- A bound of a repeat has too many digits to be read at all. -/
  | tooManyDigits (limit count : Nat)
  /-- The expression asks for the small and for the full character classes. -/
  | clashingClasses
  deriving Repr, DecidableEq

/-- The wording of an error, without its place. -/
def Error.message : Error → String
  | .syntaxFault fault _ => String.ofList fault.message
  | .repetitionTooLarge => "the repetition number is too large"
  | .tooManyDigits limit count =>
      "Exceeds the limit (" ++ String.ofList (decimal limit) ++
        " digits) for integer string conversion: value has " ++
        String.ofList (decimal count) ++
        " digits; use sys.set_int_max_str_digits() to increase the limit"
  | .clashingClasses => "ASCII and UNICODE flags are incompatible"

/-- A fault at a place. -/
def Fault.at {α : Type} (fault : Fault) (position : Nat) : Except Error α :=
  .error (.syntaxFault fault (some position))

end NoticeScan.Regex
