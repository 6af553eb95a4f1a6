/-
Declared types of table columns: scalars, containers of them, and vectors.
-/
import DocumentFilter.Json.Record
import DocumentFilter.Literal.Basic

namespace DocumentFilter

/-- The type of a single value. -/
inductive ScalarType where
  | ascii
  | bigint
  | blob
  | boolean
  | date
  | decimal
  | double
  | duration
  | float
  | inet
  | int
  | smallint
  | text
  | time
  | timestamp
  | tinyint
  | uuid
  | varint
  deriving DecidableEq, Repr

/-- The shape of a container column. -/
inductive ContainerKind where
  | list
  | set
  | map
  deriving DecidableEq, Repr

/-- The type of a column. -/
inductive ColumnType where
  | scalar (type : ScalarType)
  | list (element : ColumnType)
  | set (element : ColumnType)
  | map (key value : ColumnType)
  | vector (dimension : Nat)
  deriving DecidableEq

namespace ScalarType

/-- The type's name. -/
def name : ScalarType → String
  | .ascii => "ascii"
  | .bigint => "bigint"
  | .blob => "blob"
  | .boolean => "boolean"
  | .date => "date"
  | .decimal => "decimal"
  | .double => "double"
  | .duration => "duration"
  | .float => "float"
  | .inet => "inet"
  | .int => "int"
  | .smallint => "smallint"
  | .text => "text"
  | .time => "time"
  | .timestamp => "timestamp"
  | .tinyint => "tinyint"
  | .uuid => "uuid"
  | .varint => "varint"

/-- All scalar types. -/
def all : List ScalarType :=
  [ascii, bigint, blob, boolean, date, decimal, double, duration, float, inet, int, smallint, text, time,
    timestamp, tinyint, uuid, varint]

/-- The type of a name. -/
def ofName? (name : String) : Option ScalarType := all.find? (·.name == name)

/-- Whether values of a kind can be bound to a column of the type; dates may also be given as strings. -/
def accepts : ScalarType → Kind → Bool
  | .ascii, kind | .text, kind | .inet, kind | .uuid, kind | .duration, kind | .blob, kind | .time, kind =>
    kind == .string
  | .bigint, kind | .decimal, kind | .double, kind | .float, kind | .int, kind | .smallint, kind
  | .tinyint, kind | .varint, kind => kind == .number
  | .boolean, kind => kind == .boolean
  | .date, kind | .timestamp, kind => kind == .date || kind == .string

end ScalarType

namespace ContainerKind

/-- The shape's name. -/
def name : ContainerKind → String
  | .list => "list"
  | .set => "set"
  | .map => "map"

end ContainerKind

namespace ColumnType

/-- The shape of a container type. -/
def containerKind? : ColumnType → Option ContainerKind
  | .list _ => some .list
  | .set _ => some .set
  | .map _ _ => some .map
  | _ => none

/-- The type of vector columns. -/
def isVector (type : ColumnType) : Bool := type matches .vector _

/-- The types of single values. -/
def isScalar (type : ColumnType) : Bool := type matches .scalar _

/-- Whether values of a kind can be bound to a column of the type; none can to a container or a vector. -/
def accepts : ColumnType → Kind → Bool
  | .scalar type, kind => type.accepts kind
  | _, _ => false

/-- The type in a message. -/
def text : ColumnType → String
  | .scalar type => type.name
  | .list element => "list<" ++ element.text ++ ">"
  | .set element => "set<" ++ element.text ++ ">"
  | .map key value => "map<" ++ key.text ++ ", " ++ value.text ++ ">"
  | .vector dimension => "vector<float, " ++ dimension.repr ++ ">"

/-- The type as JSON. -/
def toJson : ColumnType → Json
  | .scalar type => .string type.name
  | .list element => .object [("list", element.toJson)]
  | .set element => .object [("set", element.toJson)]
  | .map key value => .object [("map", .array [key.toJson, value.toJson])]
  | .vector dimension => .object [("vector", .object [("dimension", Json.ofNat dimension)])]

/-- The dimension in the description of a vector type. -/
def dimension? : Json → Option Nat
  | .object entries => (Json.lookup? "dimension" entries).bind (Json.natBelow? (twoPow 32))
  | _ => none

/-- The type that JSON describes: a scalar's name, alone or as the key of null, or a constructor's parts. -/
def ofJson? : Json → Option ColumnType
  | .string name => (ScalarType.ofName? name).map .scalar
  | .object [(name, .null)] => (ScalarType.ofName? name).map .scalar
  | .object [("list", element)] => (ofJson? element).map .list
  | .object [("set", element)] => (ofJson? element).map .set
  | .object [("map", .array [key, value])] => do return .map (← ofJson? key) (← ofJson? value)
  | .object [("vector", shape)] => (dimension? shape).map .vector
  | _ => none

end ColumnType

end DocumentFilter
