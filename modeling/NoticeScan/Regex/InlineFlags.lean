import NoticeScan.Regex.Input
import NoticeScan.Text.Letter

/-!
# Flags inside an expression

The letters between `(?` and the closing parenthesis or colon, which set or clear flags for a
group or for the whole expression.
-/

namespace NoticeScan.Regex

open NoticeScan.Text

/-- A flag with a letter of its own. -/
inductive InlineFlag where
  | ignoreCase
  | locale
  | multiLine
  | dotAll
  | verbose
  | ascii
  | unicode
  | template
  deriving Repr, DecidableEq

/-- The flag that a letter names. -/
def InlineFlag.ofLetter? : Char → Option InlineFlag
  | 'i' => some .ignoreCase
  | 'L' => some .locale
  | 'm' => some .multiLine
  | 's' => some .dotAll
  | 'x' => some .verbose
  | 'a' => some .ascii
  | 'u' => some .unicode
  | 't' => some .template
  | _ => none

/-- Whether a flag chooses between the small and the full classes. -/
def InlineFlag.choosesClasses (flag : InlineFlag) : Bool :=
  flag == .ascii || flag == .unicode || flag == .locale

/-- Flags with one more set. -/
def Flags.set (flags : Flags) : InlineFlag → Flags
  | .ignoreCase => { flags with ignoreCase := true }
  | .multiLine => { flags with multiLine := true }
  | .dotAll => { flags with dotAll := true }
  | .verbose => { flags with verbose := true }
  | .ascii => { flags with ascii := true }
  | .unicode => { flags with ascii := false }
  | .template => { flags with template := true }
  | .locale => flags

/-- Flags with one more cleared. -/
def Flags.clear (flags : Flags) : InlineFlag → Flags
  | .ignoreCase => { flags with ignoreCase := false }
  | .multiLine => { flags with multiLine := false }
  | .dotAll => { flags with dotAll := false }
  | .verbose => { flags with verbose := false }
  | _ => flags

/-- Flags after some have been set and then some cleared. -/
def Flags.change (flags : Flags) (on off : List InlineFlag) : Flags :=
  off.foldl Flags.clear (on.foldl Flags.set flags)

/-- What a list of flags applies to. -/
inductive FlagList where
  /-- The whole expression. -/
  | everywhere (on : List InlineFlag)
  /-- The group that the list opens. -/
  | scoped (on off : List InlineFlag)
  deriving Repr, DecidableEq

/-- Refuses a token in a list of flags: a letter is an unknown flag, for anything else `fault`
says what should be there. -/
def refuseFlag {α : Type} (token : Token) (behind : Input) (fault : Fault) : Except Error α :=
  let unknown :=
    match token with
    | .plain c => isLetter c.toNat
    | .escaped _ => false
  (if unknown then Fault.unknownFlag else fault).at (behind.pos - token.width)

/-- The flags that are set, the first of which has just been read, with the character that ends
them. -/
def flagsOn : Nat → List InlineFlag → InlineFlag → Input →
    Except Error (List InlineFlag × Char × Input)
  | 0, _, _, input => Fault.flagsUnfinished.at input.pos
  | steps + 1, before, flag, input => do
      if flag = .locale then
        Fault.localeFlag.at input.pos
      else if flag.choosesClasses &&
          before.any fun other => other.choosesClasses && other != flag then
        Fault.clashingTypeFlags.at input.pos
      else
        let on := flag :: before
        match ← input.next? with
        | none => Fault.flagsUnfinished.at input.pos
        | some (token, behind) =>
            match token with
            | .plain c =>
                if c == ')' || c == '-' || c == ':' then
                  .ok (on, c, behind)
                else
                  match InlineFlag.ofLetter? c with
                  | some next => flagsOn steps on next behind
                  | none => refuseFlag token behind .flagsUnfinished
            | .escaped _ => refuseFlag token behind .flagsUnfinished

/-- The flags that are cleared, up to the colon behind them. `fault` is for a token that is
neither. -/
def flagsOff : Nat → List InlineFlag → Fault → Input → Except Error (List InlineFlag × Input)
  | 0, _, fault, input => fault.at input.pos
  | steps + 1, before, fault, input => do
      match ← input.next? with
      | none => fault.at input.pos
      | some (token, behind) =>
          match token with
          | .escaped _ => refuseFlag token behind fault
          | .plain c =>
              if c == ':' && !before.isEmpty then
                .ok (before, behind)
              else
                match InlineFlag.ofLetter? c with
                | none => refuseFlag token behind fault
                | some flag =>
                    if flag.choosesClasses then
                      Fault.typeFlagOff.at behind.pos
                    else
                      flagsOff steps (flag :: before) .missingColon behind

/-- A list of flags, the first character of which has just been read. -/
def flagList (first : Char) (input : Input) : Except Error (FlagList × Input) := do
  let bound := input.rest.length + 1
  let (on, closing, behind) ←
    match InlineFlag.ofLetter? first with
    | some flag => flagsOn bound [] flag input
    | none => .ok ([], '-', input)
  if closing == ')' then
    .ok (.everywhere on, behind)
  else if on.contains .template then
    Fault.globalFlagOn.at (behind.pos - 1)
  else
    let (off, last) ←
      if closing == '-' then flagsOff bound [] .missingFlag behind else .ok ([], behind)
    if off.contains .template then
      Fault.globalFlagOff.at (last.pos - 1)
    else if on.any off.contains then
      Fault.flagOnAndOff.at (last.pos - 1)
    else
      .ok (.scoped on off, last)

end NoticeScan.Regex
