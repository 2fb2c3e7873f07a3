import Procinsh.Correlation.Address
import Procinsh.Foundation.Json
import Procinsh.Foundation.Masking
import Procinsh.Foundation.OrderedMap
import Procinsh.Foundation.Utf8
import Mathlib.Data.Vector.Basic

/-!
# Privacy mode

`scan` masks a list of strings: the strings are joined with spaces, the detector looks for sensitive
parts of the joined text, and the share of every hit in every string is replaced by a pseudonym.  The
results are cached as one text, with NUL between the strings.  `scrub` masks the strings of a JSON
value.

The detector and the hash function are parameters: `find` is `Engine::find` on bytes, `sha256` the
digest of bytes.  `none` stands for a slice that is out of range or a list that is too short, where
the program panics.
-/

namespace Procinsh

/-- The detector and the key of this run. -/
structure Privacy where
  /-- `Engine::find`. -/
  find : List UInt8 → List Masking.Span
  /-- The digest of bytes. -/
  sha256 : List UInt8 → List.Vector UInt8 32
  key : List.Vector UInt8 32

namespace Privacy

open Masking (Span)

/-! ### Text -/

/-- The bytes of a string. -/
def asBytes (s : String) : List UInt8 := Utf8.encode s.toList

/-- `String::from_utf8_lossy`. -/
def fromUtf8Lossy (bytes : List UInt8) : String := String.ofList (Utf8.repair bytes)

/-- Strings joined with a separator. -/
def join (sep : Char) (items : List String) : String :=
  String.ofList ([sep].intercalate (items.map String.toList))

/-- The parts of a string between separators. -/
def split (sep : Char) (s : String) : List String := (s.toList.splitOn sep).map String.ofList

/-- `&bytes[start..stop]`. -/
def slice (bytes : List UInt8) (start stop : ℕ) : Option (List UInt8) :=
  if start ≤ stop ∧ stop ≤ bytes.length then some ((Span.mk start stop).slice bytes) else none

/-! ### Scanning -/

/-- A range of bytes that the detector found. -/
abbrev Found := Span

/-- Masked texts by the texts they mask, both with NUL between the strings. -/
abbrev Cache := OrderedMap String String

/-- How many texts are cached. -/
def cacheLimit : ℕ := 200000

/-- A byte as two hexadecimal digits. -/
def hexByte (b : UInt8) : List Char := [Nat.digitChar (b.toNat / 16), Nat.digitChar (b.toNat % 16)]

/-- What stands for a sensitive value: a keyed hash of it. -/
def pseudonym (self : Privacy) (value : List UInt8) : String :=
  let digest := self.sha256 (self.key.toList ++ value)
  String.ofList ('░' :: (digest.toList.take 4).flatMap hexByte ++ ['░'])

/-- The masked bytes of the item from `start` to `stop`, of which those before `done` are there, given
the hits that meet it. -/
def maskItem (self : Privacy) (bytes : List UInt8) (start stop : ℕ) :
    ℕ → List Found → Option (List UInt8)
  | done, [] => slice bytes done stop
  | done, hit :: found => do
    let hitFrom := max hit.start start
    let hitTo := min hit.stop stop
    let copied ← slice bytes done hitFrom
    let hidden ← slice bytes hitFrom hitTo
    let rest ← self.maskItem bytes start stop hitTo found
    return copied ++ asBytes (self.pseudonym hidden) ++ rest

/-- The masked bytes of the items from an index on, the first of which begins at `start`. -/
def maskItems (self : Privacy) (bytes : List UInt8) (found : List Found) :
    ℕ → ℕ → List String → Option (List UInt8)
  | _, _, [] => some []
  | index, start, item :: items => do
    let stop := start + (asBytes item).length
    let masked ← self.maskItem bytes start stop start
      (found.filter fun hit => hit.start < stop ∧ start < hit.stop)
    let rest ← self.maskItems bytes found (index + 1) (stop + 1) items
    return (if 0 < index then [0] else []) ++ masked ++ rest

/-- The masked forms of strings that are scanned as one text. -/
def scan (self : Privacy) (cache : Cache) (items : List String) :
    Option (List String × Cache) :=
  -- "Arguments cannot contain NUL, and pseudonyms never do."
  let key := join '\x00' items
  match cache.get? key with
  | some masked => some (split '\x00' masked, cache)
  | none => do
    let bytes := asBytes (join ' ' items)
    let masked ← self.maskItems bytes (self.find bytes) 0 0 items
    let masked := fromUtf8Lossy masked
    let cache := if cacheLimit ≤ cache.entries.length then .empty else cache
    return (split '\x00' masked, cache.set key masked)

example : (scan ⟨fun _ => [⟨3, 10⟩], fun _ => .replicate 32 7, .replicate 32 0⟩ .empty
    ["-p", "hunter2"]).map Prod.fst = some ["-p", "░07070707░"] := by decide +kernel

end Privacy

end Procinsh
