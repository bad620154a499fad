import Mathlib.Algebra.GroupWithZero.Nat
import Mathlib.Data.List.Infix
import Mathlib.Data.List.Sort
import Qmk.Lib.Trie

/-!
# The generator of the autocorrection data

`autocorrect_data.py` checks a dictionary, makes a trie of its typos read backwards, and serializes
the trie into a table of leaves, chains and branches that are linked by byte offsets.
-/

namespace Qmk.Autocorrect

open Qmk.Lib

/-- A `(typo, correction)` tuple. -/
structure Autocorrection where
  typo : List Char
  correction : List Char
  deriving DecidableEq

def kcA : Nat := 4
def kcSpc : Nat := 0x2c
def kcQuot : Nat := 0x34

def typoChars (c : Char) : Option Nat :=
  if c = '\'' then some kcQuot
  else if c = ':' then some kcSpc
  else if 'a' ≤ c ∧ c ≤ 'z' then some (c.toNat + kcA - 'a'.toNat)
  else none

/-- The checks of `parse_file` for a typo that is not a duplicate, and the one of
`parse_file_lines` that it is not empty. -/
def acceptable (autocorrections : List Autocorrection) (line : Autocorrection) : Bool :=
  line.typo ≠ [] && line.typo.all (fun c => (typoChars c).isSome) &&
    autocorrections.all (fun other =>
      !decide (line.typo <:+: other.typo) && !decide (other.typo <:+: line.typo)) &&
    line.typo.length ≤ 127

/-- `parse_file` for the tuples of its lines, where `none` is an exit. -/
def parseFile (autocorrections : List Autocorrection) :
    List Autocorrection → Option (List Autocorrection)
  | [] => some autocorrections
  | line :: lines =>
      if line.typo ∈ autocorrections.map Autocorrection.typo then parseFile autocorrections lines
      else if acceptable autocorrections line then parseFile (autocorrections ++ [line]) lines
      else none

abbrev Node := Trie Char Autocorrection

def makeTrie (autocorrections : List Autocorrection) : Node :=
  Trie.ofList (autocorrections.map fun entry => (entry.typo.reverse, entry))

/-! ## The table -/

def strip (typo : List Char) : List Char :=
  ((typo.dropWhile (· = ':')).reverse.dropWhile (· = ':')).reverse

/-- The loop that counts the first characters that two strings have in common. -/
def commonLength : List Char → List Char → Nat
  | a :: as, b :: bs => if a = b then commonLength as bs + 1 else 0
  | _, _ => 0

def Autocorrection.ending (entry : Autocorrection) : Bool := entry.typo.getLast? = some ':'

def Autocorrection.kept (entry : Autocorrection) : Nat :=
  commonLength (strip entry.typo) entry.correction

def Autocorrection.backspaces (entry : Autocorrection) : Int :=
  (strip entry.typo).length - entry.kept - 1 + if entry.ending then 1 else 0

def Autocorrection.changes (entry : Autocorrection) : List Char :=
  entry.correction.drop entry.kept

/-- The data of a leaf; `none` is a failed assertion, or a correction that is not ASCII. -/
def leafData (entry : Autocorrection) : Option (List Nat) :=
  if 0 ≤ entry.backspaces ∧ entry.backspaces ≤ 63 ∧ entry.changes.all (·.toNat < 128) then
    some ((entry.backspaces.toNat + 128) :: (entry.changes.map Char.toNat ++ [0]))
  else none

/-- An entry of the table; a link is the index of an entry. The data of a leaf is made from its
autocorrection where it is serialized. -/
inductive Entry
  | leaf (entry : Autocorrection)
  | node (chars : List Char) (links : List Nat)
  deriving DecidableEq

/-- `traverse` of a node behind a chain of single children, which has begun at an index: the
entries that it appends to the table. -/
abbrev Traversal := List Char → Nat → List Entry

def chain (chars : List Char) (index : Nat) : List Entry :=
  if chars = [] then [] else [.node chars [index + 1]]

/-- `sorted(trie_node.keys())`, with what belongs to the keys. -/
def sortKeys {α : Type} (kids : List (Char × α)) : List (Char × α) :=
  kids.insertionSort fun a b => a.1 ≤ b.1

/-- The links of a branch, and the entries behind them. -/
def visit : List (Char × Traversal) → Nat → List Nat × List Entry
  | [], _ => ([], [])
  | (_, kid) :: kids, index =>
      let below := kid [] index
      let (links, rest) := visit kids (index + below.length)
      (index :: links, below ++ rest)

def traverseNode (value : Option Autocorrection) (kids : List (Char × Traversal))
    (chars : List Char) (index : Nat) : List Entry :=
  match value, kids with
  | some entry, _ => chain chars index ++ [.leaf entry]
  | none, [(c, kid)] => kid (chars ++ [c]) index
  | none, kids =>
      let kids := sortKeys kids
      let (links, below) := visit kids (index + (chain chars index).length + 1)
      chain chars index ++ .node (kids.map Prod.fst) links :: below

def traverseItems : Node → List (Char × Traversal)
  | .empty => []
  | .leaf _ rest => traverseItems rest
  | .item c child rest => (c, traverseNode child.value (traverseItems child)) :: traverseItems rest

def traverse (node : Node) : Traversal := traverseNode node.value (traverseItems node)

/-! ## The bytes -/

def encodeLink (byteOffset : Nat) : List Nat := [byteOffset &&& 255, byteOffset >>> 8]

def linkBytes (link : Nat × Nat) : List Nat := link.1 :: encodeLink link.2

/-- The bytes of a branch, for the codes of its keys and the offsets of its links. -/
def branchBytes : List (Nat × Nat) → List Nat
  | [] => [0]
  | (code, byteOffset) :: links =>
      (code ||| 64) :: (encodeLink byteOffset ++ (links.flatMap linkBytes ++ [0]))

/-- Only a leaf has its data; the root of an empty trie has neither data nor links. -/
def serialize (byteOffset : Nat → Nat) : Entry → Option (List Nat)
  | .leaf entry => leafData entry
  | .node _ [] => none
  | .node chars [_] => (chars.mapM typoChars).map (· ++ [0])
  | .node chars links =>
      (chars.mapM typoChars).map fun codes => branchBytes (codes.zip (links.map byteOffset))

/-- The byte offset of the entry at an index, from the sizes of the entries. -/
def offsetOf (sizes : List Nat) (index : Nat) : Nat := (sizes.take index).sum

/-- `serialize_trie`: the sizes give the offsets, and the offsets the bytes. The assertion on the
offsets is the one on the last of them. -/
def serializeTrie (trie : Node) : Option (List Nat) := do
  let table := traverse trie [] 0
  let sizes ← table.mapM fun entry => (serialize (fun _ => 0) entry).map List.length
  if sizes.sum ≤ 0xffff then
    let blocks ← table.mapM (serialize (offsetOf sizes))
    some blocks.flatten
  else none

def generate (autocorrections : List Autocorrection) : Option (List Nat) :=
  serializeTrie (makeTrie autocorrections)

/-- `autocorrect_data.h` -/
structure Header where
  data : List Nat
  minLength : Nat
  maxLength : Nat

/-- `generate_autocorrect_data` -/
def generateHeader (autocorrections : List Autocorrection) : Option Header := do
  let data ← generate autocorrections
  let lengths := autocorrections.map fun entry => entry.typo.length
  some ⟨data, ← lengths.min?, ← lengths.max?⟩

end Qmk.Autocorrect
