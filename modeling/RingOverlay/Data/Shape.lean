import RingOverlay.Address.Text
import RingOverlay.Data.Value
/-!
Reading typed data from structured values. A record type is read from a record, whose entries are
visited in key order and whose unknown entries are passed over, or from the list of its fields in
declared order. Fields that are not required keep their default when they are absent.
-/

set_option autoImplicit false
set_option relaxedAutoImplicit false

namespace RingOverlay

inductive ValueKind where
  | null
  | bool (b : Bool)
  | int (n : Int)
  | float (x : Double)
  | string (s : String)
  | list
  | record
  deriving DecidableEq, Repr

def Value.kind : Value → ValueKind
  | .null => .null
  | .bool b => .bool b
  | .int n => .int n
  | .float x => .float x
  | .string s => .string s
  | .list _ => .list
  | .record _ => .record

inductive ShapeError where
  | wrongKind (found : ValueKind) (expected : String)
  | outOfRange (found : Int) (expected : String)
  | tooShort (length : Nat) (record : String) (fields : Nat)
  | tooLong (length : Nat)
  | missing (field : String)
  | address (reason : AddressError)
  deriving DecidableEq, Repr

def ValueKind.message : ValueKind → String
  | .null => "null"
  | .bool true => "boolean `true`"
  | .bool false => "boolean `false`"
  | .int n => "integer `" ++ toString n ++ "`"
  | .float x => "floating point `" ++ x.text ++ "`"
  | .string s => "string " ++ Quoted.string s
  | .list => "sequence"
  | .record => "map"

def ShapeError.message : ShapeError → String
  | .wrongKind found expected => s!"invalid type: {found.message}, expected {expected}"
  | .outOfRange n expected =>
    "invalid value: integer `" ++ toString n ++ "`, expected " ++ expected
  | .tooShort n name fields =>
    s!"invalid length {n}, expected struct {name} with {fields} "
      ++ (if fields = 1 then "element" else "elements")
  | .tooLong n => s!"invalid length {n}, expected fewer elements in array"
  | .missing field => "missing field `" ++ field ++ "`"
  | .address e => e.message

namespace Value

def unexpected {α : Type} (v : Value) (expected : String) : Except ShapeError α :=
  .error (.wrongKind v.kind expected)

def readString : Value → Except ShapeError String
  | .string s => .ok s
  | v => v.unexpected "a string"

def readBool : Value → Except ShapeError Bool
  | .bool b => .ok b
  | v => v.unexpected "a boolean"

def readNat (width : Nat) (expected : String) : Value → Except ShapeError Nat
  | .int n => if 0 ≤ n ∧ n.toNat < 1 <<< width then .ok n.toNat else .error (.outOfRange n expected)
  | v => v.unexpected expected

/-- Reads a 64-bit float; an integer stands for the nearest one. -/
def readDouble : Value → Except ShapeError Double
  | .float x => .ok x
  | .int n => .ok (.ofInt n)
  | v => v.unexpected "f64"

def readList {α : Type} (item : Value → Except ShapeError α) : Value → Except ShapeError (List α)
  | .list items => items.mapM item
  | v => v.unexpected "a sequence"

def readAddress (v : Value) : Except ShapeError Address := do
  let s ← v.readString
  (Address.ofText s).mapError .address

def readPosition (v : Value) : Except ShapeError RingAddress := do
  let s ← v.readString
  (RingAddress.ofText s).mapError .address

end Value

structure RecordField (α : Type) where
  name : String
  required : Bool
  store : α → Value → Except ShapeError α

/-- How a record type is read: its name, the record before any field is stored, its fields in
declared order, and whether a list may go on after the last field. -/
structure RecordShape (α : Type) where
  name : String
  blank : α
  fields : List (RecordField α)
  surplus : Bool

namespace RecordShape

def storeEntry {α : Type} (shape : RecordShape α) (r : α) (entry : String × Value) :
    Except ShapeError α :=
  match shape.fields.find? (·.name == entry.1) with
  | some f => f.store r entry.2
  | none => .ok r

def readEntries {α : Type} (shape : RecordShape α) (entries : List (String × Value)) :
    Except ShapeError α := do
  let r ← entries.foldlM shape.storeEntry shape.blank
  match shape.fields.find? fun f => f.required && !entries.any (·.1 == f.name) with
  | some f => .error (.missing f.name)
  | none => .ok r

def readItems {α : Type} (shape : RecordShape α) (items : List Value) : Except ShapeError α := do
  let r ← (shape.fields.zip items).foldlM (fun r (f, v) => f.store r v) shape.blank
  match (shape.fields.drop items.length).findIdx? (·.required) with
  | some i => .error (.tooShort (items.length + i) shape.name shape.fields.length)
  | none =>
    if items.length ≤ shape.fields.length ∨ shape.surplus then .ok r
    else .error (.tooLong items.length)

def read {α : Type} (shape : RecordShape α) : Value → Except ShapeError α
  | .record entries => shape.readEntries entries
  | .list items => shape.readItems items
  | v => v.unexpected ("struct " ++ shape.name)

end RecordShape

end RingOverlay
