/-!
# Sources of bytes

A source hands out its bytes in blocks and then either ends or fails for good; a fetch in between
may fail as well.
-/

namespace NoticeScan

/-- What one fetch from a source yields. No bytes at all mean that the source has ended. -/
inductive Fetch where
  | bytes (block : List UInt8)
  | failure (reason : String)
  deriving Repr, DecidableEq

/-- A source: the fetches to come, what follows them, and how often it has been used. -/
structure Source where
  fetches : List Fetch
  /-- The reason for which every later fetch fails, if they fail. -/
  failing : Option String := none
  reads : Nat := 0
  closes : Nat := 0
  deriving Repr, DecidableEq

namespace Source

/-- The most bytes that are asked for at a time. -/
def blockSize : Nat := 2048

/-- Fetches once. -/
def fetch (source : Source) : Fetch × Source :=
  let used := { source with reads := source.reads + 1 }
  match source.fetches with
  | next :: rest => (next, { used with fetches := rest })
  | [] =>
      match source.failing with
      | some reason => (.failure reason, used)
      | none => (.bytes [], used)

/-- Closes the source. -/
def close (source : Source) : Source :=
  { source with closes := source.closes + 1 }

/-- Bytes cut into blocks of a size, in at most `count` pieces. -/
def blocks (size : Nat) : Nat → List UInt8 → List (List UInt8)
  | 0, _ => []
  | _ + 1, [] => []
  | count + 1, bytes => bytes.take size :: blocks size count (bytes.drop size)

/-- The source of some bytes, which hands out at most `size` of them at a time. -/
def ofBytes (bytes : List UInt8) (size : Nat) : Source where
  fetches := (blocks (min size blockSize) bytes.length bytes).map .bytes

end Source

end NoticeScan
