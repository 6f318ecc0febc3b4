import GuestBridge.Telemetry.Basic

/-!
# Export of telemetry

Counters and records as compact JSON with the fields of every object in alphabetical order.

In a JSON string the quote, the backslash and the control characters are escaped, those with a short
form by it; every other character stands for itself.
-/

namespace GuestBridge

/-! ## JSON text -/

namespace Json

/-- The digit of a value below 16, in lower case. -/
def hexDigit (n : Nat) : Char := Char.ofNat (if n < 10 then 0x30 + n else 0x57 + n)

/-- A character inside a JSON string. -/
def escapeChar (c : Char) : List Char :=
  if c = '"' then ['\\', '"']
  else if c = '\\' then ['\\', '\\']
  else if c = '\n' then ['\\', 'n']
  else if c = '\r' then ['\\', 'r']
  else if c = '\t' then ['\\', 't']
  else if c.toNat = 8 then ['\\', 'b']
  else if c.toNat = 12 then ['\\', 'f']
  else if c.toNat < 32 then ['\\', 'u', '0', '0', hexDigit (c.toNat / 16), hexDigit (c.toNat % 16)]
  else [c]

/-- A string with its quotes. -/
def quote (s : String) : String :=
  String.ofList ('"' :: (s.toList.flatMap escapeChar ++ ['"']))

/-- A string, or `null`. -/
def quote? : Option String → String
  | some s => quote s
  | none => "null"

/-- An object of fields whose values are JSON already. -/
def object (fields : List (String × String)) : String :=
  "\x7b" ++ ",".intercalate (fields.map fun field => quote field.1 ++ ":" ++ field.2) ++ "\x7d"

/-- An array of JSON values. -/
def array (items : List String) : String := "[" ++ ",".intercalate items ++ "]"

end Json

/-! ## Counters and records -/

/-- The counters as JSON. -/
def Counters.toJson (c : Counters) : String :=
  Json.object [("calls", toString c.calls), ("conversions", toString c.conversions),
    ("failures", toString c.failures), ("pushes", toString c.pushes),
    ("tail_collapses", toString c.tailCollapses), ("wraps", toString c.wraps)]

/-- A record as JSON, with the time at which it was kept. -/
def EventRecord.toJson (time : String) (r : EventRecord) : String :=
  Json.object [("detail", Json.quote? r.detail), ("kind", Json.quote r.kind.name),
    ("timestamp_utc", Json.quote time)]

/-- Everything a collector holds as JSON. `time` is the text put in for each record's time. -/
def Telemetry.toJson (time : String) (t : Telemetry) : String :=
  Json.object [("counters", t.counters.toJson),
    ("records", Json.array (t.records.map (EventRecord.toJson time)))]

end GuestBridge
