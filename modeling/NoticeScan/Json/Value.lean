/-!
# JSON values

Values of the data format, with the fields of an object in the order in which they are written.
-/

namespace NoticeScan

/-- A JSON value. -/
inductive Json where
  | null
  | bool (value : Bool)
  | int (value : Int)
  /-- The number `mantissa` times ten to the power of `exponent`. -/
  | decimal (mantissa exponent : Int)
  | string (value : String)
  | array (items : List Json)
  | object (fields : List (String × Json))

namespace Json

/-- The value of a field, or nothing. -/
def get? (key : String) : Json → Option Json
  | .object fields => fields.lookup key
  | _ => none

/-- Fields with one of them set: in its place when there is one of that name, else at the end. -/
def setField (key : String) (value : Json) : List (String × Json) → List (String × Json)
  | [] => [(key, value)]
  | field :: rest =>
      if field.1 = key then (key, value) :: rest else field :: setField key value rest

/-- The text of a string. -/
def asString? : Json → Option String
  | .string value => some value
  | _ => none

/-- The number of an integer. -/
def asInt? : Json → Option Int
  | .int value => some value
  | _ => none

/-- The truth value. -/
def asBool? : Json → Option Bool
  | .bool value => some value
  | _ => none

/-- The items of an array. -/
def asArray? : Json → Option (List Json)
  | .array items => some items
  | _ => none

/-- The fields of an object. -/
def asObject? : Json → Option (List (String × Json))
  | .object fields => some fields
  | _ => none

/-- The strings of an array that holds nothing else. -/
def asStrings? (value : Json) : Option (List String) :=
  value.asArray?.bind fun items => items.mapM asString?

/-- Whether an integer fits into 64 bits, with a sign or without. -/
def fits (n : Int) : Bool :=
  -9223372036854775808 ≤ n && n ≤ 18446744073709551615

mutual

/-- Whether every integer in a value fits into 64 bits. -/
def allFit : Json → Bool
  | .int n => fits n
  | .array items => allFitItems items
  | .object fields => allFitFields fields
  | _ => true

def allFitItems : List Json → Bool
  | [] => true
  | item :: rest => item.allFit && allFitItems rest

def allFitFields : List (String × Json) → Bool
  | [] => true
  | (_, value) :: rest => value.allFit && allFitFields rest

end

/-- Whether a decimal is too great for a number of double precision. -/
def overflows (mantissa : Nat) (exponent : Int) : Bool :=
  let length : Int := (Nat.toDigits 10 mantissa).length
  mantissa != 0 && 308 < length + exponent &&
    (310 < length + exponent ||
      (Nat.pow 2 1024 - Nat.pow 2 970) * Nat.pow 10 (-exponent).toNat ≤
        mantissa * Nat.pow 10 exponent.toNat)

end Json

end NoticeScan
