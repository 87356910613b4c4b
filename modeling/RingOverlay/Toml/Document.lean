import RingOverlay.Toml.Number
import RingOverlay.Toml.Quoted
import RingOverlay.Toml.Tree
/-!
Configuration texts: lines with an entry, a header, a comment or nothing. Lists and records may be
nested, and keys dotted, up to a fixed depth.
-/

set_option autoImplicit false
set_option relaxedAutoImplicit false

namespace RingOverlay.Toml

def depthLimit : Nat := 80

def readKeyPart (cs : List Char) : Option (String × List Char) := do
  let cs := skipBlank cs
  let (s, rest) ← match cs with
    | '"' :: _ | '\'' :: _ => readLine? cs
    | _ => some (cs.takeWhile isBareKeyChar, cs.dropWhile isBareKeyChar)
  if s.isEmpty ∧ rest = cs then none else return (String.ofList s, skipBlank rest)

def readKeyParts : (fuel : Nat) → List Char → Option (List String × List Char)
  | 0, _ => none
  | n + 1, cs => do
    let (k, cs) ← readKeyPart cs
    match cs with
    | '.' :: cs =>
      let (ks, cs) ← readKeyParts n cs
      return (k :: ks, cs)
    | cs => return ([k], cs)

def readKey (cs : List Char) : Option (List String × String × List Char) := do
  let (ks, cs) ← readKeyParts cs.length cs
  if depthLimit ≤ ks.length then none else return (ks.dropLast, ks.getLast?.getD "", cs)

mutual

def readValue : (fuel depth : Nat) → List Char → Option (Value × List Char)
  | 0, _, _ => none
  | n + 1, depth, cs => match cs with
    | '"' :: _ | '\'' :: _ => (readQuoted? cs).map fun (s, rest) => (.string (String.ofList s), rest)
    | '[' :: cs =>
      if depthLimit ≤ depth + 1 then none
      else (readItems n (depth + 1) cs).map fun (vs, rest) => (.list vs, rest)
    | '\x7b' :: cs =>
      if depthLimit ≤ depth + 1 then none
      else match skipBlank cs with
        | '\x7d' :: rest => some (.record [], rest)
        | cs => (readPairs n (depth + 1) [] cs).map fun (es, rest) => (Value.ofEntries (entryValues es), rest)
    | 't' :: 'r' :: 'u' :: 'e' :: rest => some (.bool true, rest)
    | 'f' :: 'a' :: 'l' :: 's' :: 'e' :: rest => some (.bool false, rest)
    | cs => readNumber? cs

/-- The items of a list up to its closing bracket. A comma may follow the last one. -/
def readItems : (fuel depth : Nat) → List Char → Option (List Value × List Char)
  | 0, _, _ => none
  | n + 1, depth, cs => match skipSpaces cs with
    | ']' :: rest => some ([], rest)
    | cs => do
      let (v, cs) ← readValue n depth cs
      match skipSpaces cs with
      | ',' :: cs =>
        let (vs, cs) ← readItems n depth cs
        return (v :: vs, cs)
      | ']' :: cs => return ([v], cs)
      | _ => none

def readPairs : (fuel depth : Nat) → Entries → List Char → Option (Entries × List Char)
  | 0, _, _, _ => none
  | n + 1, depth, es, cs => do
    let (path, key, cs) ← readKey cs
    let (v, cs) ← readValue n depth (skipBlank (← after? '=' cs))
    let es ← es.assign path key v
    match skipBlank cs with
    | ',' :: cs => readPairs n depth es cs
    | '\x7d' :: cs => return (es, cs)
    | _ => none

end

structure Draft where
  entries : Entries
  header : List String

def readAssignment (d : Draft) (cs : List Char) : Option (Draft × List Char) := do
  let (path, key, cs) ← readKey cs
  let (v, cs) ← readValue (cs.length + 1) 0 (skipBlank (← after? '=' cs))
  let rest ← finishLine? cs
  let entries ← d.entries.below d.header (Entries.assign path key v)
  return ({ d with entries }, rest)

def readHeader (d : Draft) (member : Bool) (cs : List Char) : Option (Draft × List Char) := do
  let (path, key, cs) ← readKey cs
  let cs ← after? ']' cs
  let cs ← if member then after? ']' cs else some cs
  let rest ← finishLine? cs
  let entries ← d.entries.below path (if member then Entries.openMember key else Entries.openTable key)
  return (⟨entries, path ++ [key]⟩, rest)

def readLine (d : Draft) (cs : List Char) : Option (Draft × List Char) :=
  match skipBlank cs with
  | '[' :: '[' :: cs => readHeader d true cs
  | '[' :: cs => readHeader d false cs
  | cs =>
    match finishLine? cs with
    | some rest => some (d, rest)
    | none => readAssignment d cs

def readLines : (fuel : Nat) → Draft → List Char → Option Draft
  | _, d, [] => some d
  | 0, _, _ => none
  | n + 1, d, cs => do
    let (d, rest) ← readLine d cs
    readLines n d rest

/-- The record that a text stands for. A byte order mark may come first. -/
def parse? (s : String) : Option Value := do
  let cs := s.toList
  let cs := if cs.head? = some '\ufeff' then cs.drop 1 else cs
  let d ← readLines cs.length ⟨[], []⟩ cs
  return Value.ofEntries (entryValues d.entries)

end RingOverlay.Toml
