import NoticeScan.Digest.Sha256
import NoticeScan.RuleSet.Basic
import NoticeScan.Text.Utf8

/-!
# The signature of a rule set

A digest by which rule sets are told apart: equal rule sets have equal signatures.
-/

namespace NoticeScan.RuleSet

/-- Texts with a line feed between each two of them. -/
def lines (texts : List (List Char)) : List Char :=
  List.intercalate ['\n'] texts

/-- A list under its heading. -/
def sectionText (rules : RuleSet) (place : Section) : List Char :=
  place.heading.toList ++ ':' :: '\n' :: lines ((rules.get place).map String.toList)

/-- The text that the signature is the digest of. -/
def signatureText (rules : RuleSet) : List Char :=
  lines (Section.all.map rules.sectionText)

/-- The signature. -/
def signature (rules : RuleSet) : String :=
  Sha256.hexDigest (Text.Utf8.encode rules.signatureText)

end NoticeScan.RuleSet
