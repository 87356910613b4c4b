/-!
Random choices as functions of a supply of 32-bit words, handed out in order and followed by
zeros. Every choice returns what is left of the supply.
-/

set_option autoImplicit false
set_option relaxedAutoImplicit false

namespace RingOverlay

/-- The words still to be handed out; zeros follow them. -/
abbrev Words := List UInt32

namespace Words

def next : Words → UInt32 × Words
  | [] => (0, [])
  | w :: ws => (w, ws)

/-- The largest low half with which a word decides among `n` candidates. -/
def acceptance (n : Nat) : Nat :=
  n <<< (31 - n.log2) - 1

/-- An index below `n`: the high half of `w * n` for the first word `w` whose low half is accepted. -/
def index (n : Nat) : Words → Nat × Words
  | [] => (0, [])
  | w :: ws =>
    let product := w.toNat * n
    if product % UInt32.size ≤ acceptance n then (product / UInt32.size, ws) else index n ws

/-- A uniformly chosen member; an empty list takes no word. -/
def choose {α : Type} (xs : List α) (ws : Words) : Option α × Words :=
  if xs.isEmpty then (none, ws)
  else
    let (i, ws) := index xs.length ws
    (xs[i]?, ws)

def fraction24 (ws : Words) : Nat × Words :=
  let (w, ws) := ws.next
  (w.toNat / 256, ws)

def fraction53 (ws : Words) : Nat × Words :=
  let (low, ws) := ws.next
  let (high, ws) := ws.next
  ((high.toNat <<< 32 + low.toNat) >>> 11, ws)

def bytes : (n : Nat) → Words → List UInt8 × Words
  | 0, ws => ([], ws)
  | n + 1, ws =>
    let (w, ws) := ws.next
    let (bs, ws) := bytes n ws
    (UInt8.ofNat w.toNat :: bs, ws)

/-- Exchanges two members of a list; positions outside it change nothing. -/
def swap {α : Type} (xs : List α) (i j : Nat) : List α :=
  match xs[i]?, xs[j]? with
  | some a, some b => (xs.set i b).set j a
  | _, _ => xs

/-- Settles the members from position `n` downwards, each by a choice among those not yet settled. -/
def shuffleFrom {α : Type} : (n : Nat) → List α → Words → List α × Words
  | 0, xs, ws => (xs, ws)
  | n + 1, xs, ws =>
    let (j, ws) := index (n + 2) ws
    shuffleFrom n (swap xs (n + 1) j) ws

def shuffle {α : Type} (xs : List α) (ws : Words) : List α × Words :=
  shuffleFrom (xs.length - 1) xs ws

end Words

end RingOverlay
