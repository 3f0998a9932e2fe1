/-!
# The vocabulary of patterns

The pieces of regular expression that stand for blanks, names and the like, and the bounds that
they are repeated within. An expression is a list of characters; it is put together here and
compiled elsewhere.
-/

namespace NoticeScan.Pattern

/-- Bounds on repetitions. They are written into expressions as they are, so what a bound that
is negative or out of order means is settled by the reader of the expression. -/
structure Limits where
  nameLength : Int := 30
  nameRepetition : Int := 35
  spaceLength : Int := 47
  dateRepetition : Int := 30
  deriving Repr, DecidableEq

/-! ## Putting expressions together -/

/-- The text of an expression. -/
abbrev Expr := List Char

/-- A bound in decimal digits. -/
def bound (n : Int) : Expr :=
  (toString n).toList

/-- An expression repeated at least `low` and at most `high` times. -/
def times (e : Expr) (low high : Int) : Expr :=
  e ++ '\x7b' :: bound low ++ ',' :: bound high ++ ['\x7d']

/-- Expressions with bars between them. -/
def oneOf (es : List Expr) : Expr :=
  List.intercalate ['|'] es

/-- An expression as a group that captures nothing. -/
def group (e : Expr) : Expr :=
  "(?:".toList ++ e ++ [')']

/-- An expression in which letters are told apart by case. -/
def caseGroup (e : Expr) : Expr :=
  "(?-i:".toList ++ e ++ [')']

/-- A class of the given members. -/
def anyOf (members : Expr) : Expr :=
  '[' :: members ++ [']']

/-- A class of everything but the given members. -/
def noneOf (members : Expr) : Expr :=
  '[' :: '^' :: members ++ [']']

/-! ## Characters -/

/-- The members of the class of blanks: white space and what comments are decorated with. -/
def blankMembers : Expr :=
  "\\s*/#\\u00b7\\u00a7\\u00ad\\u00b6\\u00a0".toList

/-- A blank or a mark that decorates a comment. -/
def blank : Expr :=
  anyOf blankMembers

/-- A blank, a decoration or a punctuation mark. -/
def blankOrMark : Expr :=
  anyOf ("-,;.".toList ++ blankMembers)

def letter : Expr :=
  "[^\\W\\d_]".toList

def letterOrDigit : Expr :=
  "[^\\W_]".toList

def nameChar : Expr :=
  "[-\\w]".toList

def emailChar : Expr :=
  "[-.\\w]".toList

def urlChar : Expr :=
  "[-.\\w=%+]".toList

/-- A character of any word. -/
def wordChar : Expr :=
  "[-.,\\w]".toList

def upperChar : Expr :=
  "[A-Z\\u00c0-\\u00d6\\u00d8-\\u00de\\u0391-\\u03a9\\u0410-\\u042f]".toList

def lowerChar : Expr :=
  "[a-z\\u00df-\\u00f6\\u00f8-\\u00ff\\u03b1-\\u03c9\\u0430-\\u044f]".toList

def openQuoteMembers : Expr :=
  ("\\u00ab\\u2018\\u201b\\u201c\\u201f\\u2039" ++
    "\\u2e02\\u2e04\\u2e09\\u2e0c\\u2e1c\\u2e20").toList

def closeQuoteMembers : Expr :=
  "\\u00bb\\u2019\\u201d\\u203a\\u2e03\\u2e05\\u2e0a\\u2e0d\\u2e1d\\u2e21".toList

def openQuote : Expr :=
  anyOf openQuoteMembers

def closeQuote : Expr :=
  anyOf closeQuoteMembers

def notCloseQuote : Expr :=
  noneOf closeQuoteMembers

/-! ## Names, addresses and blanks -/

/-- What the name of a host may end in. -/
def hostEnds (ends : List String) : Expr :=
  group (oneOf (ends.map String.toList ++ ["[.]".toList ++ letter ++ letter]))

/-- An address on the web. -/
def url (limits : Limits) : Expr :=
  let n := limits.nameLength
  oneOf
    [ "https?[:]/".toList ++ times (group ("[/?&]".toList ++ times urlChar 1 n)) 1 25,
      "www[.]".toList ++ times urlChar 1 n ++ hostEnds ["[.]com", "[.]net", "[.]org"] ++
        times (group ("[/?&#]".toList ++ times urlChar 0 n)) 0 25 ]

/-- A mail address, with or without angle brackets. -/
def email (limits : Limits) : Expr :=
  let n := limits.nameLength
  let half := letterOrDigit ++ times emailChar 1 n
  "[<]?".toList ++ half ++ '@' :: half ++ "\\b[>]?".toList

/-- Numbers of one or two digits with dots between them. -/
def dottedNumber : Expr :=
  let digits := times "\\d".toList 1 2
  "\\b".toList ++ digits ++ times (group ("[.]".toList ++ digits)) 1 5 ++ "\\b".toList

/-- One token of the name of an owner: an address, a word, a number with dots, a quotation or
initials. -/
def name (limits : Limits) : Expr :=
  let n := limits.nameLength
  let token :=
    oneOf
      [ url limits,
        letterOrDigit ++ times nameChar 0 n ++ "\\b".toList,
        email limits,
        dottedNumber,
        openQuote ++ times notCloseQuote 0 65 ++ closeQuote,
        times (caseGroup (upperChar ++ "[-.]".toList)) 1 5,
        times emailChar 1 n ++ hostEnds ["[.]com", "[.]org", "[.]net"] ]
  group (group token ++ "[,;:]?".toList)

/-- A word in capitals. -/
def upperName (limits : Limits) : Expr :=
  caseGroup ("\\b".toList ++ times upperChar 1 limits.nameLength)

/-- A word that starts with a capital. -/
def properName (limits : Limits) : Expr :=
  caseGroup ("\\b".toList ++ upperChar ++ times lowerChar 0 limits.nameLength)

/-- A word of any kind. -/
def anyWord (limits : Limits) : Expr :=
  group (times wordChar 1 limits.nameLength)

/-- Blanks, at least `low` of them. -/
def space (low : Int) (limits : Limits) : Expr :=
  times blank low limits.spaceLength

/-- Any words in between, at least `low` of them. -/
def wildcard (low : Int) (limits : Limits) : Expr :=
  let word := group (space 1 limits ++ times wordChar 1 limits.nameLength)
  times word low limits.nameRepetition ++ space 0 limits

end NoticeScan.Pattern
