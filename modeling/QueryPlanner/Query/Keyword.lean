import QueryPlanner.Query.Token
import QueryPlanner.Text.Basic

namespace QueryPlanner.Query.Token

def isKeyword (keyword : String) : Token → Bool
  | word w => Text.capitals w = keyword
  | _      => false

def isOneOf (keywords : List String) : Token → Bool
  | word w => Text.capitals w ∈ keywords
  | _      => false

def reserved : List String :=
  ["ALTER", "AND", "AS", "BETWEEN", "CREATE", "CROSS", "DISTINCT", "DISTINCTROW", "DROP", "ELSE",
    "EXCEPT", "FETCH", "FOR", "FROM", "GLOB", "GRANT", "GROUP BY", "HAVING", "ILIKE", "IN", "INNER",
    "INSERT", "INTERSECT", "INTO", "JOIN", "LATERAL", "LIKE", "MOD", "NOT", "NOTNULL", "ON", "OR",
    "ORDER BY", "OUTER", "QUALIFY", "REGEXP", "RETURNING", "RLIKE", "ROLLBACK", "SELECT",
    "STRAIGHT_JOIN", "TABLESAMPLE", "THEN", "UNION", "USING", "VALUES", "WHEN", "WHERE", "WITH",
    "XOR"]

-- Words that are names, but go on with a source or what is done with it if they come after one.
def reservedAfterSource : List String :=
  ["ANTI", "ASOF", "FORCE", "FULL", "IGNORE", "LEFT", "LOCK", "NATURAL", "RIGHT", "SEMI", "USE",
    "WINDOW"]

def callable : List String :=
  ["GLOB", "ILIKE", "INSERT", "LIKE", "MOD", "REGEXP", "RLIKE", "UNION", "VALUES", "XOR"]

def uncallable : List String :=
  ["ANTI", "ASC", "CASE", "DEFAULT", "DELETE", "DESC", "DIV", "END", "ESCAPE", "FALSE", "FULL",
    "IS", "LIMIT", "NATURAL", "SEMI", "SET", "TRUE", "UPDATE", "USE"]

def types : List String :=
  ["BIGINT", "BINARY", "BIT", "BLOB", "BOOL", "BOOLEAN", "CHAR", "DATE", "DATETIME", "DECIMAL",
    "DOUBLE", "FLOAT", "INT", "INTEGER", "JSON", "NULL", "NUMERIC", "REAL", "SET", "SMALLINT",
    "TEXT", "TIME", "TIMESTAMP", "TINYINT", "VARCHAR", "YEAR"]

def isName : Token → Bool
  | name _ => true
  | word w => Text.capitals w ∉ reserved
  | _      => false

def isFunction : Token → Bool
  | name _ => true
  | word w =>
    let k := Text.capitals w
    k ∈ callable || k ∉ reserved && k ∉ uncallable
  | _      => false

-- Where a name has to come almost every token stands for one.
def isAnything : Token → Bool
  | symbol s        => 1 < s.length && s ≠ "=="
  | word w          => Text.capitals w ∉ ["MOD", "NOT", "SELECT"]
  | hint _ | remark => false
  | _               => true

def isNegation (t : Token) : Bool :=
  t = symbol "!" || t.isKeyword "NOT"

def text : Token → String
  | word t | name t | number t | string t | symbol t | hint t => t
  | constant => "0"
  | remark   => ""

end QueryPlanner.Query.Token
