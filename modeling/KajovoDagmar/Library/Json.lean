import Mathlib.Data.List.Sort
import Mathlib.Data.Nat.Notation
import Mathlib.Data.Char
import Mathlib.Data.List.Lex

/-! # JSON values

JSON values as a Python program holds them: an object keeps the order in which its keys were
written, a float is kept as the text `repr` gives for it.  `dumps` and `dumpsSorted` are
`json.dumps` with `ensure_ascii=False` and compact separators, without and with
`sort_keys=True`. -/

inductive Json where
  | null
  | bool (b : Bool)
  | int (n : ℤ)
  | float (repr : String)
  | str (s : String)
  | arr (xs : List Json)
  | obj (kvs : List (String × Json))
deriving Repr, Inhabited

namespace Json

/-- The entries of an object; any other value has none. -/
def entries : Json → List (String × Json)
  | obj kvs => kvs
  | _ => []

/-- The value under a key of an object. -/
def get? (j : Json) (key : String) : Option Json := (j.entries.find? fun kv => kv.1 = key).map Prod.snd

/-- `value.get(key, default)`. -/
def getD (j : Json) (key : String) (default : Json) : Json := (j.get? key).getD default

/-- Python's truth value of a JSON value. -/
def truthy : Json → Bool
  | null => false
  | bool b => b
  | int n => n ≠ 0
  | float r => r ≠ "0.0" && r ≠ "-0.0"
  | str s => s ≠ ""
  | arr xs => !xs.isEmpty
  | obj kvs => !kvs.isEmpty

def ofOption (o : Option Json) : Json := o.getD null

def ofStr? (o : Option String) : Json := ofOption (o.map str)

/-- The escape of one character in a JSON string. -/
def escapeChar (c : Char) : List Char :=
  if c = '"' then ['\\', '"']
  else if c = '\\' then ['\\', '\\']
  else if c = '\n' then ['\\', 'n']
  else if c = '\r' then ['\\', 'r']
  else if c = '\t' then ['\\', 't']
  else if c.toNat = 8 then ['\\', 'b']
  else if c.toNat = 12 then ['\\', 'f']
  else if c.toNat < 32 then
    ['\\', 'u', '0', '0', Nat.digitChar (c.toNat / 16), Nat.digitChar (c.toNat % 16)]
  else [c]

/-- A string between the quotes of its JSON form. -/
def escape (s : String) : List Char := s.toList.flatMap escapeChar

def quote (s : String) : List Char := '"' :: (escape s ++ ['"'])

mutual

/-- The compact JSON text of a value. -/
def chars : Json → List Char
  | null => "null".toList
  | bool true => "true".toList
  | bool false => "false".toList
  | int n => (toString n).toList
  | float r => r.toList
  | str s => quote s
  | arr xs => '[' :: (charsItems xs ++ [']'])
  | obj kvs => '\x7b' :: (charsEntries kvs ++ ['\x7d'])

def charsItems : List Json → List Char
  | [] => []
  | [x] => chars x
  | x :: y :: xs => chars x ++ ',' :: charsItems (y :: xs)

def charsEntries : List (String × Json) → List Char
  | [] => []
  | [(k, v)] => quote k ++ ':' :: chars v
  | (k, v) :: kv :: kvs => quote k ++ ':' :: (chars v ++ ',' :: charsEntries (kv :: kvs))

end

mutual

/-- The value with the keys of every object in order. -/
def sortKeys : Json → Json
  | arr xs => arr (sortKeysItems xs)
  | obj kvs => obj ((sortKeysEntries kvs).insertionSort fun a b => a.1.toList ≤ b.1.toList)
  | j => j

def sortKeysItems : List Json → List Json
  | [] => []
  | x :: xs => sortKeys x :: sortKeysItems xs

def sortKeysEntries : List (String × Json) → List (String × Json)
  | [] => []
  | (k, v) :: kvs => (k, sortKeys v) :: sortKeysEntries kvs

end

def dumps (j : Json) : String := String.ofList j.chars

def dumpsSorted (j : Json) : String := String.ofList j.sortKeys.chars

example : dumpsSorted (obj [("b", arr [int (-1), null]), ("a", str "x\"y")]) =
    "\x7b\"a\":\"x\\\"y\",\"b\":[-1,null]\x7d" := by decide

end Json
