import Scriptlet.Syntax.Basic

/-!
# Value/Basic — what a program computes with

Integers, booleans, strings and null are told apart by what they hold.  Arrays, hashes and functions
carry an *identity* besides, given to them when they are made: two of them are the same value when
one was made and then handed around, not when they look alike.
-/

namespace Scriptlet

/-- What is given to an array, a hash or a function when it is made, and to nothing else. -/
abbrev Identity := Nat

/-- The place of a scope in the store. -/
abbrev ScopeId := Nat

/-! ## Built-in functions -/

/-- The functions that every program can use without binding them. -/
inductive Builtin where
  | len
  | first
  | last
  | rest
  | push
  | pop
  deriving DecidableEq, Repr, Inhabited

namespace Builtin

/-- In the order in which they are documented; names are looked up in this list. -/
def all : List Builtin := [len, first, last, rest, push, pop]

/-- The name a program calls it by. -/
def name : Builtin → String
  | len => "len"
  | first => "first"
  | last => "last"
  | rest => "rest"
  | push => "push"
  | pop => "pop"

/-- The built-in of a name.  Scopes are asked first, so a program may use the name for itself. -/
def ofName? (name : String) : Option Builtin := all.find? (·.name == name)

end Builtin

/-! ## Values -/

/-- What can be the key of a hash entry: an integer, a boolean or a string. -/
inductive HashKey where
  | integer (value : Int64)
  | boolean (value : Bool)
  | string (value : String)
  deriving DecidableEq, Repr, Inhabited

/-- What a hash keeps under a key: the value that was given as the key, and the value that was given
for it. -/
structure HashPair (α : Type) where
  key : α
  value : α
  deriving Inhabited

/-- What expressions evaluate to and names are bound to. -/
inductive Value where
  | integer (value : Int64)
  | boolean (value : Bool)
  | string (value : String)
  | null
  | array (id : Identity) (elements : List Value)
  /-- The entries have pairwise different keys, the oldest key first. -/
  | hash (id : Identity) (entries : List (HashKey × HashPair Value))
  /-- A function remembers the scope it was made in. -/
  | function (id : Identity) (params : List Param) (body : Block) (scope : ScopeId)
  | builtin (which : Builtin)
  /-- The result of a failed evaluation. -/
  | error (message : String)
  deriving Inhabited

/-- An entry of a hash, under its key. -/
abbrev HashEntry := HashKey × HashPair Value

/-- The kinds that messages tell apart. -/
inductive ValueKind where
  | integer
  | boolean
  | string
  | null
  | array
  | hash
  | function
  | builtin
  | error
  deriving DecidableEq, Repr, Inhabited

/-- The name of a kind of values in messages. -/
def ValueKind.label : ValueKind → String
  | integer => "INTEGER"
  | boolean => "BOOLEAN"
  | string => "STRING"
  | null => "NULL"
  | array => "ARRAY"
  | hash => "HASH"
  | function => "FUNCTION"
  | builtin => "BUILTIN"
  | error => "ERROR"

/-- A hash key as a value. -/
def HashKey.toValue : HashKey → Value
  | integer n => .integer n
  | boolean b => .boolean b
  | string s => .string s

namespace Value

/-- The kind of a value; the two truth values are of one kind. -/
def kind : Value → ValueKind
  | integer _ => .integer
  | boolean _ => .boolean
  | string _ => .string
  | null => .null
  | array .. => .array
  | hash .. => .hash
  | function .. => .function
  | builtin _ => .builtin
  | error _ => .error

/-- A condition holds unless it is `false` or null. -/
def truthy : Value → Bool
  | boolean b => b
  | null => false
  | _ => true

/-- The key of the hash entry that the value names, if it can name one. -/
def hashKey? : Value → Option HashKey
  | integer n => some (.integer n)
  | boolean b => some (.boolean b)
  | string s => some (.string s)
  | _ => none

/-- The value is one and the same: booleans, null and built-ins by what they are, arrays, hashes and
functions by identity.  Empty arrays hold nothing to tell them apart, so any two are the same.
Integers, strings and errors are compared in other ways, and never this way. -/
def same : Value → Value → Bool
  | boolean a, boolean b => a == b
  | null, null => true
  | array i as, array j bs =>
    if as.isEmpty || bs.isEmpty then as.isEmpty && bs.isEmpty else i == j
  | hash i _, hash j _ => i == j
  | function i .., function j .. => i == j
  | builtin a, builtin b => a == b
  | _, _ => false

/-! ## Looking into a value

What a host can ask a value for. -/

/-- The number that the value is. -/
def integer? : Value → Option Int64
  | integer n => some n
  | _ => none

/-- The truth value that the value is, which is not the same as how it counts in a condition. -/
def boolean? : Value → Option Bool
  | boolean b => some b
  | _ => none

/-- The text that the value is, without quotes. -/
def string? : Value → Option String
  | string s => some s
  | _ => none

/-- The elements, if the value is an array. -/
def elements? : Value → Option (List Value)
  | array _ es => some es
  | _ => none

/-- The message, if the value stands for a failed evaluation. -/
def errorMessage? : Value → Option String
  | error message => some message
  | _ => none

/-- The value at a key of a hash. -/
def entry? (v : Value) (key : HashKey) : Option Value :=
  match v with
  | hash _ entries => (entries.lookup key).map HashPair.value
  | _ => none

end Value

/-- Put a pair under a key.  A pair that is there gives up its place, the key it was made with
included. -/
def insertPair (key : HashKey) (pair : HashPair Value) : List HashEntry → List HashEntry
  | [] => [(key, pair)]
  | (k, p) :: entries =>
    if k = key then (key, pair) :: entries else (k, p) :: insertPair key pair entries

/-- Set the value at a key that is given as such: the key is kept as the value that it is. -/
def setEntry (key : HashKey) (value : Value) (entries : List HashEntry) : List HashEntry :=
  insertPair key ⟨key.toValue, value⟩ entries

end Scriptlet
