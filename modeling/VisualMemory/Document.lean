/-!
# Documents

The form in which parts of a machine are kept outside of it: nothing, truth values, numbers, text,
lists, and records whose members have names.

* `Document.natural?`, `Document.byte?`, `Document.word?`, `Document.real?`, `Document.boolean?`:
  plain values.
* `Document.oneOf?`: one of a list of named values.
* `Document.members?`: the members of a record, by their names.
* `Document.vector?`: a list of known length.
-/

namespace VisualMemory

/-- A structured value. -/
inductive Document where
  | null
  | boolean (value : Bool)
  | integer (value : Int)
  | real (value : Float)
  | text (value : String)
  | list (items : List Document)
  | record (members : List (String × Document))
deriving Inhabited

namespace Document

/-! ## Plain values -/

/-- An integer that is not negative. -/
def natural? : Document → Option Nat
  | integer n => if 0 ≤ n then some n.toNat else none
  | _ => none

/-- An integer that fits a byte. -/
def byte? (d : Document) : Option UInt8 :=
  (d.natural?.filter (· < 0x100)).map UInt8.ofNat

/-- An integer that fits a word. -/
def word? (d : Document) : Option UInt16 :=
  (d.natural?.filter (· < 0x10000)).map UInt16.ofNat

/-- A number; integers are numbers too. -/
def real? : Document → Option Float
  | real x => some x
  | integer n => some (.ofInt n)
  | _ => none

def boolean? : Document → Option Bool
  | boolean b => some b
  | _ => none

/-- Nothing, or what `read` makes of the document. -/
def optional? {α : Type} (read : Document → Option α) : Document → Option (Option α)
  | null => some none
  | d => (read d).map some

def ofByte (b : UInt8) : Document :=
  integer b.toNat

def ofWord (w : UInt16) : Document :=
  integer w.toNat

/-! ## Named values -/

/-- A name: text, or a record with this one member and nothing in it. -/
def name? : Document → Option String
  | text s => some s
  | record [(s, null)] => some s
  | _ => none

/-- The value in a list that the document names. -/
def oneOf? {α : Type} (values : List α) (name : α → String) (d : Document) : Option α :=
  d.name?.bind fun s => values.find? fun v => name v == s

/-! ## Records and lists -/

/-- The member with a name, if there is one. Two members of one name are refused. -/
def member? (members : List (String × Document)) (name : String) : Option (Option Document) :=
  match members.filter (·.1 == name) with
  | [] => some none
  | [(_, d)] => some (some d)
  | _ => none

/-- The members with the given names, of a record or of a list in their order. Other members of a
record do not matter; a list has to have the right length. -/
def members? (names : List String) : Document → Option (List (Option Document))
  | record members => names.mapM (member? members)
  | list items => if items.length = names.length then some (items.map some) else none
  | _ => none

/-- As `members?`, but a list may also end early. -/
def membersOrFewer? (names : List String) : Document → Option (List (Option Document))
  | list items =>
    if items.length ≤ names.length then
      some (items.map some ++ List.replicate (names.length - items.length) none)
    else none
  | d => members? names d

/-- A list of `n` values. -/
def vector? {α : Type} (n : Nat) (read : Document → Option α) : Document → Option (Vector α n)
  | list items =>
    (items.mapM read).bind fun values =>
      if h : values.length = n then some ⟨values.toArray, by simpa using h⟩ else none
  | _ => none

def ofVector {α : Type} {n : Nat} (write : α → Document) (values : Vector α n) : Document :=
  list (values.toList.map write)

end Document

end VisualMemory
