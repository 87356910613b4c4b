import RingOverlay.Bytes.Hex
import RingOverlay.Number.Shortest
/-!
Structured values, as they travel in calls and stand in configuration files, and their compact text.
-/

set_option autoImplicit false
set_option relaxedAutoImplicit false

namespace RingOverlay

/-- A structured value. The entries of a record are in ascending order of their keys. -/
inductive Value where
  | null
  | bool (b : Bool)
  | int (n : Int)
  | float (x : Double)
  | string (s : String)
  | list (items : List Value)
  | record (entries : List (String × Value))

namespace Value

instance : Inhabited Value := ⟨.null⟩

/-- Adds an entry at its place in key order; an entry of the same key is replaced. -/
def insertEntry (key : String) (v : Value) : List (String × Value) → List (String × Value)
  | [] => [(key, v)]
  | (k, w) :: rest =>
    if key < k then (key, v) :: (k, w) :: rest
    else if key = k then (key, v) :: rest
    else (k, w) :: insertEntry key v rest

/-- The record with the given entries; of two entries with one key the later counts. -/
def ofEntries (entries : List (String × Value)) : Value :=
  .record (entries.foldl (fun es e => insertEntry e.1 e.2 es) [])

def strings (xs : List String) : Value := .list (xs.map .string)

def nat (n : Nat) : Value := .int n

def quotedChar (c : Char) : List Char :=
  if c = '"' ∨ c = '\\' then ['\\', c]
  else if c = '\n' then ['\\', 'n']
  else if c = '\r' then ['\\', 'r']
  else if c = '\t' then ['\\', 't']
  else if c = '\x08' then ['\\', 'b']
  else if c = '\x0c' then ['\\', 'f']
  else if c.toNat < 0x20 then ['\\', 'u', '0', '0'] ++ Hex.encode [UInt8.ofNat c.toNat]
  else [c]

def quoted (s : String) : List Char := '"' :: s.toList.flatMap quotedChar ++ ['"']

mutual

def chars : Value → List Char
  | null => "null".toList
  | bool true => "true".toList
  | bool false => "false".toList
  | int n => (toString n).toList
  | float x => x.text.toList
  | string s => quoted s
  | list items => '[' :: itemChars items ++ [']']
  | record entries => '\x7b' :: entryChars entries ++ ['\x7d']

def itemChars : List Value → List Char
  | [] => []
  | [v] => v.chars
  | v :: rest => v.chars ++ ',' :: itemChars rest

def entryChars : List (String × Value) → List Char
  | [] => []
  | [(k, v)] => quoted k ++ ':' :: v.chars
  | (k, v) :: rest => quoted k ++ ':' :: v.chars ++ ',' :: entryChars rest

end

def compact (v : Value) : String := String.ofList v.chars

end Value

end RingOverlay
