import PipelineAudit.Assoc
import PipelineAudit.Calendar
import PipelineAudit.Number.Binary64

/-!
# Values

The values a configuration or pipeline file can hold. Mappings keep their entries in the order in
which they were written, and any value can be a key.

`Value.same` is the equality under which keys are compared: numbers are equal across their kinds,
and truth values count as the numbers one and zero.
-/

namespace PipelineAudit

/-- A value of a data file. -/
inductive Value where
  | null
  | bool (b : Bool)
  | int (n : Int)
  | float (x : Binary64)
  | str (s : String)
  | bytes (bs : List UInt8)
  | date (d : Date)
  | moment (t : Moment)
  | seq (items : List Value)
  /-- A key with its value, as an item of an ordered list of pairs. -/
  | pair (key value : Value)
  | map (entries : List (Value × Value))
  deriving Repr, Inhabited

namespace Value

/-! ## Kinds -/

/-- Whether a value is a mapping. -/
def isMap : Value → Bool
  | map _ => true
  | _ => false

/-- Whether a value is a text. -/
def isStr : Value → Bool
  | str _ => true
  | _ => false

/-- Whether a value is the null value. -/
def isNull : Value → Bool
  | null => true
  | _ => false

/-- The entries of a mapping; none for other values. -/
def entries : Value → List (Value × Value)
  | map es => es
  | _ => []

/-- Whether a value counts as true: not null, false, zero, or empty. -/
def truthy : Value → Bool
  | null => false
  | bool b => b
  | int n => n != 0
  | float x => !x.isZero
  | str s => !s.isEmpty
  | bytes bs => !bs.isEmpty
  | seq items => !items.isEmpty
  | map es => !es.isEmpty
  | date _ | moment _ | pair _ _ => true

/-- Whether a value can be a key of a mapping. -/
def isKey : Value → Bool
  | seq _ | map _ => false
  | pair a b => isKey a && isKey b
  | _ => true

/-! ## Equality -/

/-- The integer that a number or truth value equals. -/
def number? : Value → Option Int
  | bool b => some (if b then 1 else 0)
  | int n => some n
  | float x => x.toInt?
  | _ => none

/-- Whether two values are one and the same number, also one that is not equal to itself. -/
def isOne : Value → Value → Bool
  | float x, float y => x == y
  | _, _ => false

mutual

/-- Whether two values are equal. As parts of other values, two that are one and the same count as
equal. -/
def same : Value → Value → Bool
  | null, null => true
  | str a, str b => a == b
  | bytes a, bytes b => a == b
  | date a, date b => a == b
  | moment a, moment b => a.same b
  | float a, float b => !a.isNaN && (a == b || (a.isZero && b.isZero))
  | seq a, seq b => sameItems a b
  | pair a b, pair c d => (isOne a c || same a c) && (isOne b d || same b d)
  | map a, map b => a.length == b.length && sameEntries a b
  | a, b =>
    match a.number?, b.number? with
    | some m, some n => m == n
    | _, _ => false
termination_by structural a => a

/-- Whether two lists of values are equal item by item. -/
def sameItems : List Value → List Value → Bool
  | [], [] => true
  | a :: as, b :: bs => (isOne a b || same a b) && sameItems as bs
  | _, _ => false
termination_by structural a => a

/-- Whether every entry of the first list is found in the second. -/
def sameEntries : List (Value × Value) → List (Value × Value) → Bool
  | [], _ => true
  | e :: rest, b => b.any (sameEntry e) && sameEntries rest b
termination_by structural a => a

/-- Whether two entries have equal keys and values. -/
def sameEntry : Value × Value → Value × Value → Bool
  | (k, v), e => (isOne k e.1 || same k e.1) && (isOne v e.2 || same v e.2)
termination_by structural a => a

end

/-- Whether two keys are the same key: equal values, or the same number that is not one. -/
def sameKey (a b : Value) : Bool := isOne a b || same a b

/-! ## Order -/

/-- Whether one number is at most another, truth values being numbers too; none if one of the two
values is no number. -/
def atMost? : Value → Value → Option Bool
  | float x, float y => some (decide (x.toFloat ≤ y.toFloat))
  | float x, v => (number? v).map fun n => x.atMostInt n
  | v, float x => (number? v).map fun n => x.atLeastInt n
  | a, b => do return decide ((← number? a) ≤ (← number? b))

/-! ## Mappings -/

/-- The value of a key in a list of entries. -/
def lookup : List (Value × Value) → Value → Option Value
  | [], _ => none
  | (k, v) :: rest, key => if sameKey k key then some v else lookup rest key

/-- Whether an entry has a given text as its key. -/
def hasName (name : String) : Value × Value → Bool
  | (str s, _) => s == name
  | _ => false

/-- The value under a text key; none if the value is no mapping or lacks the key. -/
def get? (v : Value) (name : String) : Option Value :=
  (v.entries.find? (hasName name)).map Prod.snd

/-- The value under a text key, null if there is none. -/
def get (v : Value) (name : String) : Value := (v.get? name).getD null

/-- Whether a mapping has a text key. -/
def has (v : Value) (name : String) : Bool := (v.get? name).isSome

/-- Writes an entry: the value of a key that is present is replaced, a new key goes to the end. -/
def insertEntry : List (Value × Value) → Value → Value → List (Value × Value)
  | [], key, value => [(key, value)]
  | (k, v) :: rest, key, value =>
    if sameKey k key then (k, value) :: rest else (k, v) :: insertEntry rest key value

/-- The entries that result from writing pairs one after another. -/
def entriesOf (pairs : List (Value × Value)) : List (Value × Value) :=
  pairs.foldl (fun es p => insertEntry es p.1 p.2) []

/-- A mapping with text keys. -/
def ofFields (fields : Assoc String Value) : Value := map (fields.map fun p => (str p.1, p.2))

/-- A list of texts. -/
def ofStrings (items : List String) : Value := seq (items.map str)

end Value

end PipelineAudit
