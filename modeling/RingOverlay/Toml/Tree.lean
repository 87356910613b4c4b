import RingOverlay.Data.Value
/-!
How the parts of a configuration text make up one record. A table comes about by its own header, by the
header of a table below it, or by dotted keys; which of these it was decides what may be added to it
later. Nothing is ever defined twice.
-/

set_option autoImplicit false
set_option relaxedAutoImplicit false

namespace RingOverlay.Toml

inductive TableOrigin where
  | header
  | implied
  | dotted
  deriving DecidableEq, Repr

inductive Item where
  | value (v : Value)
  | table (origin : TableOrigin) (entries : List (String × Item))
  | tables (members : List (List (String × Item)))

abbrev Entries := List (String × Item)

def Entries.put (es : Entries) (key : String) (item : Item) : Entries :=
  if es.any (·.1 == key) then es.map fun e => if e.1 == key then (key, item) else e
  else es ++ [(key, item)]

def changeLast {α : Type} (f : α → Option α) : List α → Option (List α)
  | [] => none
  | [a] => (fun b => [b]) <$> f a
  | a :: as => (a :: ·) <$> changeLast f as

def Entries.assign : (path : List String) → (key : String) → Value → Entries → Option Entries
  | [], key, v, es => if es.any (·.1 == key) then none else some (es ++ [(key, .value v)])
  | k :: ks, key, v, es =>
    match es.lookup k with
    | none => do return es ++ [(k, .table .dotted (← assign ks key v []))]
    | some (.value _) => none
    | some (.table .header _) => none
    | some (.table .implied inner) =>
      if ks.isEmpty then none
      else do return Entries.put es k (.table .implied (← assign ks key v inner))
    | some (.table .dotted inner) => do
      return Entries.put es k (.table .dotted (← assign ks key v inner))
    | some (.tables members) =>
      if ks.isEmpty then none
      else do return Entries.put es k (.tables (← changeLast (assign ks key v) members))

/-- Changes the table that a path of headers leads to; tables on the way come about by it. -/
def Entries.below : (path : List String) → (Entries → Option Entries) → Entries → Option Entries
  | [], f, es => f es
  | k :: ks, f, es =>
    match es.lookup k with
    | none => do return es ++ [(k, .table .implied (← below ks f []))]
    | some (.value _) => none
    | some (.table o inner) => do return Entries.put es k (.table o (← below ks f inner))
    | some (.tables members) => do return Entries.put es k (.tables (← changeLast (below ks f) members))

def Entries.openTable (key : String) (es : Entries) : Option Entries :=
  match es.lookup key with
  | none => some (es ++ [(key, .table .header [])])
  | some (.table .implied inner) => some (Entries.put es key (.table .header inner))
  | some _ => none

def Entries.openMember (key : String) (es : Entries) : Option Entries :=
  match es.lookup key with
  | none => some (es ++ [(key, .tables [[]])])
  | some (.tables members) => some (Entries.put es key (.tables (members ++ [[]])))
  | some _ => none

mutual

def Item.toValue : Item → Value
  | .value v => v
  | .table _ entries => Value.ofEntries (entryValues entries)
  | .tables members => .list (memberValues members)

def entryValues : List (String × Item) → List (String × Value)
  | [] => []
  | (k, item) :: rest => (k, item.toValue) :: entryValues rest

def memberValues : List (List (String × Item)) → List Value
  | [] => []
  | es :: rest => Value.ofEntries (entryValues es) :: memberValues rest

end

end RingOverlay.Toml
