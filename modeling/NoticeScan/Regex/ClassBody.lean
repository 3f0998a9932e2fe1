import NoticeScan.Regex.Escape

/-!
# Character classes

The members between the brackets of a character class.
-/

namespace NoticeScan.Regex

/-- A single entry of a class, before it may turn out to start a range. -/
def classEntry (token : Token) (input : Input) : Except Error (Member × Input) :=
  match token with
  | .plain c => .ok (.point c.toNat, input)
  | .escaped c => do
      match ← classEscape c input with
      | (.point x, behind) => .ok (.point x, behind)
      | (.category kind negated, behind) => .ok (.category kind negated, behind)
      | (_, behind) => (Fault.badEscape ['\\', c]).at (behind.pos - 2)

/-- The range from one entry to another. -/
def classRange (low high : Member) (lowToken highToken : Token) (behind : Input) :
    Except Error Member :=
  let bad : Except Error Member :=
    (Fault.badRange lowToken.text highToken.text).at
      (behind.pos - (lowToken.width + 1 + highToken.width))
  match low, high with
  | .point x, .point y => if y < x then bad else .ok (.range x y)
  | _, _ => bad

/-- The members of a class up to its closing bracket, read with a bound on their number. A
bracket right at the start is a member. `start` is where the class begins and `found` holds the
members before, the last one first. -/
def classBodyFrom (start : Nat) : Nat → List Member → Input →
    Except Error (List Member × Input)
  | 0, found, input => .ok (found.reverse, input)
  | steps + 1, found, input => do
      match ← input.next? with
      | none => Fault.unterminatedClass.at start
      | some (token, inside) =>
          if token = .plain ']' && !found.isEmpty then
            .ok (found.reverse, inside)
          else
            let (low, behind) ← classEntry token inside
            match ← behind.take? '-' with
            | none => classBodyFrom start steps (low :: found) behind
            | some dashed =>
                match ← dashed.next? with
                | none => Fault.unterminatedClass.at start
                | some (other, last) =>
                    if other = .plain ']' then
                      .ok ((.point '-'.toNat :: low :: found).reverse, last)
                    else
                      let (high, close) ← classEntry other last
                      let range ← classRange low high token other close
                      classBodyFrom start steps (range :: found) close

/-- A class whose opening bracket has just been read: whether it is negated, its members, and
the input behind it. -/
def classBody (input : Input) : Except Error (Bool × List Member × Input) := do
  let start := input.pos - 1
  match ← input.take? '^' with
  | some inside =>
      let (members, behind) ← classBodyFrom start (inside.rest.length + 1) [] inside
      .ok (true, members, behind)
  | none =>
      let (members, behind) ← classBodyFrom start (input.rest.length + 1) [] input
      .ok (false, members, behind)

end NoticeScan.Regex
