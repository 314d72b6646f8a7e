import Quarry.Number.Word
import Quarry.Pool.Address
import Quarry.Text.Blank
import Quarry.Text.Hex
import Quarry.Wire.Bytes

namespace Quarry.ConnectionString

open Text

/-- Settings in the order of the text. -/
abbrev Settings := List (String × String)

def natBelow? (limit : Nat) (s : String) : Option Nat :=
  (Decimal.readPlus? s.toList).filter (· < limit)

def isWord (s : String) : Bool :=
  ((Decimal.readInt? s.toList).bind Number.word?).isSome

def isPort (s : String) : Bool :=
  s = "" || (natBelow? UInt16.size s).isSome

def textKeys : List String :=
  ["user", "password", "dbname", "options", "application_name", "host"]

def choices : List (String × List String) :=
  [("sslmode", ["disable", "prefer", "require"]),
    ("sslnegotiation", ["postgres", "direct"]),
    ("target_session_attrs", ["any", "read-write", "read-only"]),
    ("channel_binding", ["disable", "prefer", "require"]),
    ("load_balance_hosts", ["disable", "random"])]

def wordKeys : List String :=
  ["connect_timeout", "tcp_user_timeout", "keepalives_idle", "keepalives_interval"]

def isSetting (key value : String) : Bool :=
  if textKeys.contains key then true
  else if wordKeys.contains key then isWord value
  else match choices.lookup key with
    | some words => words.contains value
    | none =>
      match key with
      | "port" => (value.splitOn ",").all isPort
      | "hostaddr" => (value.splitOn ",").all Address.isAddress
      | "keepalives" => (natBelow? UInt64.size value).isSome
      | "keepalives_retries" => (natBelow? UInt32.size value).isSome
      | _ => false

/-- A value up to the next blank; a backslash takes the next character as it is. -/
def plainValue : List Char → List Char × List Char
  | [] => ([], [])
  | '\\' :: c :: cs =>
    let (v, rest) := plainValue cs
    (c :: v, rest)
  | ['\\'] => ([], [])
  | c :: cs =>
    if isBlank c then ([], c :: cs)
    else
      let (v, rest) := plainValue cs
      (c :: v, rest)

/-- A value up to the closing quote, which must come. -/
def quotedValue? : List Char → Option (List Char × List Char)
  | [] => none
  | '\'' :: cs => some ([], cs)
  | '\\' :: c :: cs => (quotedValue? cs).map fun (v, rest) => (c :: v, rest)
  | ['\\'] => none
  | c :: cs => (quotedValue? cs).map fun (v, rest) => (c :: v, rest)

def value? : List Char → Option (List Char × List Char)
  | '\'' :: cs => quotedValue? cs
  | cs =>
    let (v, rest) := plainValue cs
    if v = [] then none else some (v, rest)

def isKeyChar (c : Char) : Bool :=
  !isBlank c && c ≠ '='

/-- The settings of a text; it ends where no key follows. -/
def pairs? : Nat → List Char → Option Settings
  | 0, _ => some []
  | fuel + 1, cs =>
    let cs := trimStart cs
    let key := cs.takeWhile isKeyChar
    if key = [] then some []
    else
      match trimStart (cs.dropWhile isKeyChar) with
      | '=' :: cs => do
        let (v, rest) ← value? (trimStart cs)
        let more ← pairs? fuel rest
        some ((String.ofList key, String.ofList v) :: more)
      | _ => none

/-- Replaces each percent sign with two hexadecimal digits by the byte that they stand for. -/
def percentDecode : List UInt8 → List UInt8
  | 0x25 :: a :: b :: bs =>
    match Hex.value? (Char.ofNat a.toNat), Hex.value? (Char.ofNat b.toNat) with
    | some x, some y => UInt8.ofNat (x * 16 + y) :: percentDecode bs
    | _, _ => 0x25 :: percentDecode (a :: b :: bs)
  | b :: bs => b :: percentDecode bs
  | [] => []

def decodedBytes (cs : List Char) : List UInt8 :=
  percentDecode (Wire.utf8 (String.ofList cs))

def decode? (cs : List Char) : Option String :=
  String.fromUTF8? ⟨(decodedBytes cs).toArray⟩

/-- The name of a host, or a path, which may be any bytes. -/
def host? (cs : List Char) : Option Settings :=
  if (decodedBytes cs).head? = some 0x2f then some [("host", String.ofList cs)]
  else (decode? cs).map fun s => [("host", s)]

/-- A text before and after the first character of `ends`; the whole text if there is none. -/
def splitAt (ends : List Char) (cs : List Char) : List Char × List Char :=
  (cs.takeWhile (!ends.contains ·), cs.dropWhile (!ends.contains ·))

def splitOn (c : Char) : List Char → List (List Char)
  | [] => [[]]
  | d :: cs =>
    if d = c then [] :: splitOn c cs
    else
      match splitOn c cs with
      | first :: rest => (d :: first) :: rest
      | [] => [[d]]

/-- A host and its port. A host in brackets may contain colons. -/
def hostAndPort? : List Char → Option (List Char × List Char)
  | '[' :: cs =>
    match splitAt [']'] cs with
    | (host, [_]) => some (host, "5432".toList)
    | (host, _ :: ':' :: port) => some (host, port)
    | _ => none
  | cs =>
    match splitAt [':'] cs with
    | (host, _ :: port) => some (host, port)
    | (host, []) => some (host, "5432".toList)

def chunk? (cs : List Char) : Option Settings := do
  let (host, port) ← hostAndPort? cs
  let h ← host? host
  let p ← decode? port
  some (h ++ [("port", p)])

def hosts? (cs : List Char) : Option Settings :=
  if cs = [] then some []
  else ((splitOn ',' cs).mapM chunk?).map List.flatten

def credentials? (cs : List Char) : Option Settings :=
  (decode? (splitAt [':'] cs).1).map fun user => [("user", user)]

def database? (cs : List Char) : Option Settings :=
  if cs = [] then some [] else (decode? cs).map fun s => [("dbname", s)]

def queries? : Nat → List Char → Option Settings
  | 0, _ => some []
  | fuel + 1, cs =>
    if cs = [] then some []
    else
      match splitAt ['='] cs with
      | (_, []) => none
      | (key, _ :: cs) => do
        let key ← decode? key
        let (v, rest) := splitAt ['&'] cs
        let setting ←
          if key = "host" then host? v else (decode? v).map fun s => [(key, s)]
        let more ← queries? fuel (rest.drop 1)
        some (setting ++ more)

def urlSettings? (cs : List Char) : Option Settings := do
  let (user, cs) ← match splitAt ['@'] cs with
    | (front, _ :: back) => (credentials? front).map fun u => (u, back)
    | (_, []) => some ([], cs)
  let (host, cs) := splitAt ['/', '?'] cs
  let hosts ← hosts? host
  let (database, cs) := match cs with
    | '/' :: cs => splitAt ['?'] cs
    | cs => ([], cs)
  let name ← database? database
  let more ← match cs with
    | '?' :: cs => queries? (cs.length + 1) cs
    | _ => some []
  some (user ++ hosts ++ name ++ more)

def schemes : List String := ["postgres://", "postgresql://"]

def settings? (s : String) : Option Settings :=
  let cs := s.toList
  match schemes.find? fun scheme => scheme.toList.isPrefixOf cs with
  | some scheme => urlSettings? (cs.drop scheme.length)
  | none => pairs? (cs.length + 1) cs

def isValid (s : String) : Bool :=
  match settings? s with
  | some settings => settings.all fun (key, value) => isSetting key value
  | none => false

end Quarry.ConnectionString
