import Procinsh.Privacy.Scan

/-!
# Scrubbing JSON values

`scrub` masks every string of a value.  A string of an identifying field is replaced whole, other
strings are scanned, and the strings of an array are scanned as one text.  The cache goes from one
scan to the next, and from one value to the next.
-/

namespace Procinsh.Privacy

open Json (asString?)

/-- Fields that identify a machine or peer whatever their text looks like. -/
def wholeFields : List String := ["remote_hostname", "gid", "remote_gid", "uuid", "serial"]

/-- Whether a string of a field is replaced whole. -/
def isWhole (field : Option String) (text : String) : Bool :=
  match field with
  | some field =>
    if field = "ip" then
      match Ipc.IpAddr.fromStr text with
      | some ip => !ip.isLoopback && !ip.isUnspecified
      | none => false
    else field ∈ wholeFields
  | none => false

/-- Whether the items of an array of a field are scanned as one text. -/
def isScannedTogether (field : Option String) (items : List Json) : Bool :=
  1 < items.length && !(field.any fun field => field ∈ wholeFields) &&
    items.all fun item => item.asString?.isSome

/-- The items with masked strings in their places, as far as there are any. -/
def replaceItems : List Json → List String → List Json
  | _ :: items, text :: masked => .string text :: replaceItems items masked
  | items, _ => items

/-- A string of a field, masked. -/
def scrubString (self : Privacy) (cache : Cache) (field : Option String) (text : String) :
    Option (String × Cache) :=
  if text = "" then some (text, cache)
  else if isWhole field text then some (self.pseudonym (asBytes text), cache)
  else do
    let (masked, cache) ← self.scan cache [text]
    let text ← masked.head?
    return (text, cache)

mutual

/-- A value of a field, masked. -/
def scrub (self : Privacy) (cache : Cache) (field : Option String) : Json → Option (Json × Cache)
  | .string text => do
    let (text, cache) ← self.scrubString cache field text
    return (.string text, cache)
  | .array items =>
    if isScannedTogether field items then do
      let (masked, cache) ← self.scan cache (items.filterMap asString?)
      return (.array (replaceItems items masked), cache)
    else do
      let (items, cache) ← self.scrubItems cache field items
      return (.array items, cache)
  | .object fields => do
    let (fields, cache) ← self.scrubFields cache fields
    return (.object fields, cache)
  | .null => some (.null, cache)
  | .bool b => some (.bool b, cache)
  | .number n => some (.number n, cache)

/-- The items of an array of a field, masked one after the other. -/
def scrubItems (self : Privacy) (cache : Cache) (field : Option String) :
    List Json → Option (List Json × Cache)
  | [] => some ([], cache)
  | item :: items => do
    let (item, cache) ← self.scrub cache field item
    let (items, cache) ← self.scrubItems cache field items
    return (item :: items, cache)

/-- The fields of an object, masked one after the other, each under its name. -/
def scrubFields (self : Privacy) (cache : Cache) :
    List (String × Json) → Option (List (String × Json) × Cache)
  | [] => some ([], cache)
  | (name, item) :: fields => do
    let (item, cache) ← self.scrub cache (some name) item
    let (fields, cache) ← self.scrubFields cache fields
    return ((name, item) :: fields, cache)

end

/-- Values that are scrubbed one after another, with what is cached then. -/
def scrubAll (self : Privacy) : Cache → List Json → Option (List Json × Cache)
  | cache, [] => some ([], cache)
  | cache, value :: values => do
    let (value, cache) ← self.scrub cache none value
    let (values, cache) ← self.scrubAll cache values
    return (value :: values, cache)

end Procinsh.Privacy
