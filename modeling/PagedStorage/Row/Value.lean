import PagedStorage.Text.Utf8

namespace PagedStorage

inductive Value
  | null
  | int (n : Int32)
  | bigint (n : Int64)
  | bool (b : Bool)
  | text (s : String)
deriving DecidableEq

abbrev Row := List Value

namespace Value

def tag : Value → UInt8
  | null => 0
  | int _ => 1
  | bigint _ => 2
  | bool _ => 3
  | text _ => 4

def isNull : Value → Bool
  | null => true
  | _ => false

def encodedSize : Value → Nat
  | null => 1
  | int _ => 5
  | bigint _ => 9
  | bool _ => 2
  | text s => 3 + s.utf8ByteSize

/-- The value as people read it: text stands in single quotes, and nothing in it is escaped. -/
def display : Value → String
  | null => "NULL"
  | int n => toString n.toInt
  | bigint n => toString n.toInt
  | bool b => if b then "true" else "false"
  | text s => "'" ++ s ++ "'"

def ofOption {α : Type} (make : α → Value) : Option α → Value
  | some a => make a
  | none => null

end Value

def Row.encodedSize : Row → Nat
  | [] => 0
  | value :: row => value.encodedSize + Row.encodedSize row

end PagedStorage
