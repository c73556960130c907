/-
  File:      ViralEngine/Lib/Sql.lean
  Subject:   A FRAGMENT OF SQL: STATEMENTS, THEIR READING FROM TOKENS, AND WHAT THEY DO TO TABLES.
             No program fact.

  The statements a small embedded store needs: CREATE TABLE with one key column, INSERT OR REPLACE
  of a whole row, UPDATE of one column and SELECT with WHERE on one column, ORDER BY .. DESC, LIMIT
  and OFFSET, DELETE of a whole table, BEGIN and COMMIT. A statement that is no part of the
  fragment, or that does not fit the tables, is an error and changes nothing.

  * `Stmt`, `Query`, `parseStmt` -- statements and their reading;
  * `Table`, `Db`, `Stmt.run` -- tables and what a statement does to them;
  * `Visit` -- the order in which the rows of a table come by, which SQL leaves open;
  * `Query.run` -- the rows of a query;
  * `execText`, `queryText` -- a whole text, statement by statement;
  * `parseInsert_tokens`, `parseValue_tokens` -- values come back from their tokens;
  * `execText_one`, `queryText_one` -- a text of one statement.
-/
import ViralEngine.Lib.SqlText
import Mathlib.Algebra.Ring.Nat
import Mathlib.Data.List.Sort

namespace Viral.Lib.Sql

/-! ## 1. Statements -/

/-- The values of a row, in the order of the columns. -/
abbrev Row := List Value

/-- The declared type of a column. -/
inductive ColType where
  | text | integer
  deriving DecidableEq, Repr

/-- A column of a table. -/
structure Column where
  name : Bytes
  type : ColType
  deriving DecidableEq, Repr

/-- `SELECT column FROM table WHERE filter ORDER BY order DESC LIMIT limit OFFSET offset`; without
    a column it is `SELECT *`. -/
structure Query where
  column : Option Bytes
  table : Bytes
  filter : Option (Bytes × Value)
  order : Option Bytes
  limit : Option Int
  offset : Option Int
  deriving DecidableEq, Repr

/-- The statements of the fragment. -/
inductive Stmt where
  | createTable (table : Bytes) (columns : List Column) (key : Bytes)
  | createIndex
  | pragma
  | begin
  | commit
  | insertOrReplace (table : Bytes) (row : Row)
  | update (table column : Bytes) (value : Value) (whereColumn : Bytes) (whereValue : Value)
  | delete (table : Bytes)
  | select (query : Query)
  deriving DecidableEq, Repr

/-! ## 2. From tokens to statements -/

/-- The keyword `w`. -/
def word (w : String) : List Token → Option (List Token)
  | .word x :: ts => if x = ascii w then some ts else none
  | _ => none

/-- The keywords `ws`, one behind the other. -/
def words : List String → List Token → Option (List Token)
  | [], ts => some ts
  | w :: ws, ts => (word w ts).bind (words ws)

/-- A name comes next. -/
def name : List Token → Option (Bytes × List Token)
  | .word x :: ts => some (x, ts)
  | _ => none

/-- This sign comes next. -/
def sign (c : UInt8) : List Token → Option (List Token)
  | .sign x :: ts => if x = c then some ts else none
  | _ => none

/-- A literal. An integer outside the 64-bit range would become a float. -/
def parseValue : List Token → Option (Value × List Token)
  | .str s :: ts => some (.text s, ts)
  | .num n :: ts => if n < 2 ^ 63 then some (.int n, ts) else none
  | .sign 45 :: .num n :: ts => if n ≤ 2 ^ 63 then some (.int (-n), ts) else none
  | _ => none

/-- Literals that fill their pieces. -/
def parseValues : List (List Token) → Option (List Value)
  | [] => some []
  | piece :: pieces =>
    match parseValue piece with
    | some (v, []) => (parseValues pieces).map (v :: ·)
    | _ => none

/-- What stands in front of the closing bracket at the end, cut at the commas. -/
def bracketed (ts : List Token) : Option (List (List Token)) :=
  if ts.getLast? = some (.sign 41) then some (ts.dropLast.splitOn (.sign 44)) else none

/-- Behind `INSERT`. -/
def parseInsert (ts : List Token) : Option Stmt := do
  let ts ← words ["or", "replace", "into"] ts
  let (table, ts) ← name ts
  let ts ← word "values" ts
  let ts ← sign 40 ts
  let row ← (bracketed ts).bind parseValues
  some (.insertOrReplace table row)

/-- Behind `UPDATE`. -/
def parseUpdate (ts : List Token) : Option Stmt := do
  let (table, ts) ← name ts
  let ts ← word "set" ts
  let (column, ts) ← name ts
  let ts ← sign 61 ts
  let (value, ts) ← parseValue ts
  let ts ← word "where" ts
  let (whereColumn, ts) ← name ts
  let ts ← sign 61 ts
  let (whereValue, ts) ← parseValue ts
  if ts = [] then some (.update table column value whereColumn whereValue) else none

/-- Behind `DELETE`. -/
def parseDelete (ts : List Token) : Option Stmt := do
  let ts ← word "from" ts
  let (table, ts) ← name ts
  if ts = [] then some (.delete table) else none

/-- `WHERE` one column equals a literal, if it is there. -/
def parseWhere (ts : List Token) : Option (Option (Bytes × Value) × List Token) :=
  match word "where" ts with
  | none => some (none, ts)
  | some ts => do
    let (column, ts) ← name ts
    let ts ← sign 61 ts
    let (value, ts) ← parseValue ts
    some (some (column, value), ts)

/-- `ORDER BY` one column `DESC`, if it is there. -/
def parseOrder (ts : List Token) : Option (Option Bytes × List Token) :=
  match words ["order", "by"] ts with
  | none => some (none, ts)
  | some ts => do
    let (column, ts) ← name ts
    let ts ← word "desc" ts
    some (some column, ts)

/-- `LIMIT n` or `OFFSET n`. -/
def parseBound (keyword : String) (ts : List Token) : Option (Option Int × List Token) :=
  match word keyword ts with
  | none => some (none, ts)
  | some ts =>
    match parseValue ts with
    | some (.int n, ts) => some (some n, ts)
    | _ => none

/-- What is selected: every column (`none`), or one. -/
def parseColumn : List Token → Option (Option Bytes × List Token)
  | .sign 42 :: ts => some (none, ts)
  | .word x :: ts => some (some x, ts)
  | _ => none

/-- Behind `SELECT`. -/
def parseSelect (ts : List Token) : Option Stmt := do
  let (column, ts) ← parseColumn ts
  let ts ← word "from" ts
  let (table, ts) ← name ts
  let (filter, ts) ← parseWhere ts
  let (order, ts) ← parseOrder ts
  let (limit, ts) ← parseBound "limit" ts
  let (offset, ts) ← parseBound "offset" ts
  if ts = [] then some (.select ⟨column, table, filter, order, limit, offset⟩) else none

/-- The types there are. -/
def colType (w : Bytes) : Option ColType :=
  if w = ascii "text" then some .text else if w = ascii "integer" then some .integer else none

/-- One column of a CREATE TABLE, and whether it is the key. A default is of no account where
    whole rows are inserted. -/
def parseColumnDef : List Token → Option (Column × Bool)
  | .word x :: .word t :: ts => do
    let type ← colType t
    match ts with
    | [] | [.word _, .num _] => some (⟨x, type⟩, false)
    | [.word p, .word k] =>
      if p = ascii "primary" ∧ k = ascii "key" then some (⟨x, type⟩, true) else none
    | _ => none
  | _ => none

/-- All columns of a CREATE TABLE, in their order. -/
def parseColumnDefs : List (List Token) → Option (List (Column × Bool))
  | [] => some []
  | piece :: pieces => do
    let c ← parseColumnDef piece
    let cs ← parseColumnDefs pieces
    some (c :: cs)

/-- Behind `CREATE`: a table, or an index, which changes no answer. -/
def parseCreate (ts : List Token) : Option Stmt :=
  match words ["table", "if", "not", "exists"] ts with
  | some ts => do
    let (table, ts) ← name ts
    let ts ← sign 40 ts
    let columns ← (bracketed ts).bind parseColumnDefs
    let key ← columns.find? (·.2)
    some (.createTable table (columns.map (·.1)) key.1.name)
  | none => (words ["index", "if", "not", "exists"] ts).map fun _ => .createIndex

/-- **A statement from its tokens**, by its first keyword. -/
def parseStmt : List Token → Option Stmt
  | .word w :: ts =>
    if w = ascii "insert" then parseInsert ts
    else if w = ascii "update" then parseUpdate ts
    else if w = ascii "delete" then parseDelete ts
    else if w = ascii "select" then parseSelect ts
    else if w = ascii "create" then parseCreate ts
    else if w = ascii "pragma" then some .pragma
    else if w = ascii "begin" then
      if ts = [.word (ascii "transaction")] then some .begin else none
    else if w = ascii "commit" then
      if ts = [] then some .commit else none
    else none
  | _ => none

/-! ## 3. Tables -/

/-- A table with its key column. -/
structure Table where
  name : Bytes
  columns : List Column
  key : Bytes
  rows : List Row
  deriving DecidableEq, Repr

/-- An open database. -/
structure Db where
  tables : List Table
  inTransaction : Bool
  deriving DecidableEq, Repr

/-- A value of the type of its column. -/
def Value.fits : Value → ColType → Bool
  | .int _, .integer | .text _, .text => true
  | _, _ => false

/-- The place of a column in the rows. -/
def Table.index (t : Table) (column : Bytes) : Option Nat :=
  t.columns.findIdx? fun c => c.name == column

/-- A row of this table: as many values as columns, each of its type. -/
def Table.fits (t : Table) (row : Row) : Bool :=
  row.length == t.columns.length && (row.zip t.columns).all fun p => p.1.fits p.2.type

/-- A row with the key of a stored one replaces it. -/
def Table.insertOrReplace (t : Table) (row : Row) : Option Table := do
  let k ← t.index t.key
  if t.fits row then some { t with rows := t.rows.filter (fun r => r[k]? ≠ row[k]?) ++ [row] }
  else none

/-- UPDATE of a column other than the key. -/
def Table.update (t : Table) (column : Bytes) (value : Value) (whereColumn : Bytes)
    (whereValue : Value) : Option Table := do
  let i ← t.index column
  let k ← t.index whereColumn
  let c ← t.columns[i]?
  if column ≠ t.key ∧ value.fits c.type then
    some { t with rows := t.rows.map fun r => if r[k]? = some whereValue then r.set i value else r }
  else none

/-- Change the table of that name. -/
def modifyTable (name : Bytes) (f : Table → Option Table) : List Table → Option (List Table)
  | [] => none
  | t :: ts => if t.name = name then (f t).map (· :: ts) else (modifyTable name f ts).map (t :: ·)

/-- A change of one table; `none` where there is no such table, or the change fails. -/
def Db.modify (db : Db) (name : Bytes) (f : Table → Option Table) : Option Db :=
  (modifyTable name f db.tables).map fun ts => { db with tables := ts }

/-- A table by its name. -/
def Db.table (db : Db) (name : Bytes) : Option Table := db.tables.find? fun t => t.name == name

/-- **What a statement does**; `none` is an error. -/
def Stmt.run (db : Db) : Stmt → Option Db
  | .createTable table columns key =>
    match db.table table with
    | some _ => some db
    | none => some { db with tables := db.tables ++ [⟨table, columns, key, []⟩] }
  | .createIndex | .pragma | .select _ => some db
  | .begin => if db.inTransaction then none else some { db with inTransaction := true }
  | .commit => if db.inTransaction then some { db with inTransaction := false } else none
  | .insertOrReplace table row => db.modify table (·.insertOrReplace row)
  | .update table column value whereColumn whereValue =>
    db.modify table (·.update column value whereColumn whereValue)
  | .delete table => db.modify table fun t => some { t with rows := [] }

/-! ## 4. Queries -/

/-- The order in which the rows of a table come by: any, and not the same each time. -/
structure Visit where
  order : List Row → List Row
  perm : ∀ rows, (order rows).Perm rows

/-- In the order in which they were written. -/
def Visit.stored : Visit := ⟨id, fun rows => List.Perm.refl rows⟩

/-- The integer in column `i`. -/
def intAt (i : Nat) (r : Row) : Int :=
  match r[i]? with
  | some (.int n) => n
  | _ => 0

/-- `r` comes in front of `s`, or they tie, in descending order of column `i`. -/
def Descending (i : Nat) (r s : Row) : Prop := intAt i s ≤ intAt i r

instance (i : Nat) : DecidableRel (Descending i) := fun _ _ => inferInstanceAs (Decidable (_ ≤ _))

instance (i : Nat) : Std.Total (Descending i) := ⟨fun r s => le_total (intAt i s) (intAt i r)⟩

instance (i : Nat) : IsTrans Row (Descending i) := ⟨fun _ _ _ h1 h2 => le_trans h2 h1⟩

/-- LIMIT and OFFSET: a negative limit is no limit, a negative offset is 0. -/
def cut {α : Type} (limit offset : Option Int) (rows : List α) : List α :=
  let rows := rows.drop (offset.getD 0).toNat
  match limit with
  | some n => if n < 0 then rows else rows.take n.toNat
  | none => rows

/-- The rows the query asks for. -/
def Query.filterRows (q : Query) (t : Table) (rows : List Row) : Option (List Row) :=
  match q.filter with
  | none => some rows
  | some (column, value) =>
    (t.index column).map fun k => rows.filter fun r => r[k]? = some value

/-- Rows that tie stay in the order they came by. -/
def Query.orderRows (q : Query) (t : Table) (rows : List Row) : Option (List Row) :=
  match q.order with
  | none => some rows
  | some column => do
    let i ← t.index column
    let c ← t.columns[i]?
    if c.type = .integer then some (rows.insertionSort (Descending i)) else none

/-- The columns the query asks for. -/
def Query.project (q : Query) (t : Table) (rows : List Row) : Option (List Row) :=
  match q.column with
  | none => some rows
  | some column => (t.index column).map fun i => rows.map fun r => r[i]?.toList

/-- **The rows of a query.** -/
def Query.run (q : Query) (visit : Visit) (db : Db) : Option (List Row) := do
  let t ← db.table q.table
  let rows ← q.filterRows t (visit.order t.rows)
  let rows ← q.orderRows t rows
  q.project t (cut q.limit q.offset rows)

/-! ## 5. Texts -/

/-- The statements of a text, cut at the semicolons. -/
def statements (ts : List Token) : List (List Token) := (ts.splitOn (.sign 59)).filter (· ≠ [])

/-- One statement after the other, up to the first error. -/
def runAll (db : Db) : List (List Token) → Db × Bool
  | [] => (db, true)
  | ts :: rest =>
    match (parseStmt ts).bind (Stmt.run db) with
    | some db' => runAll db' rest
    | none => (db, false)

/-- **Run a text**, and whether all of it went through. -/
def execText (db : Db) (sql : Bytes) : Db × Bool :=
  match lex sql with
  | some ts => runAll db (statements ts)
  | none => (db, false)

/-- **The rows of a text's first statement.** -/
def queryText (db : Db) (visit : Visit) (sql : Bytes) : Option (List Row) :=
  match (lex sql).map statements with
  | some (ts :: _) =>
    match parseStmt ts with
    | some (.select q) => q.run visit db
    | _ => none
  | _ => none

/-! ## 6. Values come back from their tokens -/

/-- The value is one that SQL keeps as it is: an integer of 64 bits. -/
def Value.InRange : Value → Prop
  | .int i => -2 ^ 63 ≤ i ∧ i < 2 ^ 63
  | .text _ => True

/-- **A literal is read as its value.** -/
theorem parseValue_tokens {v : Value} (hv : v.InRange) (ts : List Token) :
    parseValue (v.tokens ++ ts) = some (v, ts) := by
  cases v with
  | text s => rfl
  | int i =>
    obtain ⟨hlo, hhi⟩ := hv
    by_cases hi : i < 0
    · have hn : i.natAbs ≤ 2 ^ 63 := by omega
      have hval : -(i.natAbs : Int) = i := by omega
      simp only [Value.tokens, if_pos hi, List.cons_append, List.nil_append, parseValue,
        if_pos hn, hval]
    · have hn : i.natAbs < 2 ^ 63 := by omega
      have hval : (i.natAbs : Int) = i := by omega
      simp only [Value.tokens, if_neg hi, List.nil_append, List.singleton_append,
        parseValue, if_pos hn, hval]

/-- No token of a literal is a comma, a semicolon or a bracket. -/
theorem sign_not_mem_tokens (v : Value) {c : UInt8} (hc : c ≠ 45) : Token.sign c ∉ v.tokens := by
  cases v with
  | text s => simp [Value.tokens]
  | int i => by_cases hi : i < 0 <;> simp [Value.tokens, hi, hc]

theorem parseValues_tokens {vs : List Value} (hvs : ∀ v ∈ vs, v.InRange) :
    parseValues (vs.map Value.tokens) = some vs := by
  induction vs with
  | nil => rfl
  | cons v vs ih =>
    have hv := parseValue_tokens (hvs v List.mem_cons_self) []
    rw [List.append_nil] at hv
    rw [List.map_cons, parseValues, hv]
    show Option.map _ (parseValues (vs.map Value.tokens)) = _
    rw [ih fun w hw => hvs w (List.mem_cons_of_mem v hw)]
    rfl

/-- **A row is cut at its commas into its literals.** -/
theorem bracketed_row {vs : List Value} (hvs : vs ≠ []) :
    bracketed (rowTokens vs ++ [.sign 41]) = some (vs.map Value.tokens) := by
  unfold bracketed
  rw [List.getLast?_concat, if_pos rfl, List.dropLast_concat, rowTokens, List.splitOn_intercalate]
  · intro piece hpiece
    obtain ⟨v, _, rfl⟩ := List.mem_map.mp hpiece
    exact sign_not_mem_tokens v (by decide)
  · simpa using hvs

/-- The tokens of an INSERT OR REPLACE in front of its row. -/
def insertHead (table : Bytes) : List Token :=
  [.word (ascii "insert"), .word (ascii "or"), .word (ascii "replace"), .word (ascii "into"),
    .word table, .word (ascii "values"), .sign 40]

theorem parseStmt_insert (table : Bytes) {vs : List Value} (hne : vs ≠ [])
    (hvs : ∀ v ∈ vs, v.InRange) :
    parseStmt (insertHead table ++ (rowTokens vs ++ [.sign 41])) =
      some (.insertOrReplace table vs) := by
  have hrow : (bracketed (rowTokens vs ++ [.sign 41])).bind parseValues = some vs := by
    rw [bracketed_row hne]
    exact parseValues_tokens hvs
  show ((bracketed (rowTokens vs ++ [.sign 41])).bind parseValues).bind _ = _
  rw [hrow]
  rfl

/-- The tokens of an UPDATE. -/
def updateTokens (table column : Bytes) (value : Value) (whereColumn : Bytes)
    (whereValue : Value) : List Token :=
  [.word (ascii "update"), .word table, .word (ascii "set"), .word column, .sign 61] ++
    (value.tokens ++ ([.word (ascii "where"), .word whereColumn, .sign 61] ++ whereValue.tokens))

theorem parseStmt_update (table column whereColumn : Bytes) {value whereValue : Value}
    (hv : value.InRange) (hw : whereValue.InRange) :
    parseStmt (updateTokens table column value whereColumn whereValue) =
      some (.update table column value whereColumn whereValue) := by
  have hlast := parseValue_tokens hw []
  rw [List.append_nil] at hlast
  show (parseValue (value.tokens ++ _)).bind _ = _
  rw [parseValue_tokens hv]
  show (parseValue whereValue.tokens).bind _ = _
  rw [hlast]
  rfl

/-- The tokens of the clauses of a SELECT. -/
def whereTokens : Option (Bytes × Value) → List Token
  | none => []
  | some (column, value) => [.word (ascii "where"), .word column, .sign 61] ++ value.tokens

/-- The tokens of an ORDER BY. -/
def orderTokens : Option Bytes → List Token
  | none => []
  | some column =>
    [.word (ascii "order"), .word (ascii "by"), .word column, .word (ascii "desc")]

/-- The tokens of a LIMIT or an OFFSET. -/
def boundTokens (keyword : String) : Option Int → List Token
  | none => []
  | some n => .word (ascii keyword) :: (Value.int n).tokens

theorem parseWhere_tokens {f : Option (Bytes × Value)} (hf : ∀ p ∈ f, p.2.InRange)
    (rest : List Token) (hrest : word "where" rest = none) :
    parseWhere (whereTokens f ++ rest) = some (f, rest) := by
  cases f with
  | none => rw [whereTokens, List.nil_append, parseWhere, hrest]
  | some p =>
    show (parseValue (p.2.tokens ++ rest)).bind _ = _
    rw [parseValue_tokens (hf p rfl)]
    rfl

theorem parseOrder_tokens (column : Option Bytes) (rest : List Token)
    (hrest : words ["order", "by"] rest = none) :
    parseOrder (orderTokens column ++ rest) = some (column, rest) := by
  cases column with
  | none => rw [orderTokens, List.nil_append, parseOrder, hrest]
  | some c => rfl

theorem parseBound_tokens (keyword : String) {bound : Option Int}
    (hb : ∀ n ∈ bound, (Value.int n).InRange) (rest : List Token)
    (hrest : word keyword rest = none) :
    parseBound keyword (boundTokens keyword bound ++ rest) = some (bound, rest) := by
  cases bound with
  | none => rw [boundTokens, List.nil_append, parseBound, hrest]
  | some n =>
    have hword : word keyword (boundTokens keyword (some n) ++ rest) =
        some ((Value.int n).tokens ++ rest) := if_pos rfl
    rw [parseBound, hword]
    dsimp only
    rw [parseValue_tokens (hb n rfl)]

/-- The tokens of a SELECT. -/
def Query.tokens (q : Query) : List Token :=
  [.word (ascii "select"), (match q.column with
      | none => .sign 42
      | some c => .word c), .word (ascii "from"), .word q.table] ++
    (whereTokens q.filter ++ (orderTokens q.order ++
      (boundTokens "limit" q.limit ++ (boundTokens "offset" q.offset ++ []))))

/-- The literals of a query are in range. -/
structure Query.InRange (q : Query) : Prop where
  filter : ∀ p ∈ q.filter, p.2.InRange
  limit : ∀ n ∈ q.limit, (Value.int n).InRange
  offset : ∀ n ∈ q.offset, (Value.int n).InRange

/-- **A SELECT is read clause by clause.** -/
theorem parseStmt_select {q : Query} (hq : q.InRange) : parseStmt q.tokens = some (.select q) := by
  obtain ⟨column, table, filter, order, limit, offset⟩ := q
  -- no clause starts with the keyword of the one before it
  have hoffset := parseBound_tokens "offset" hq.offset [] rfl
  have hlimit := parseBound_tokens "limit" hq.limit
    (boundTokens "offset" offset ++ []) (by cases offset <;> rfl)
  have horder := parseOrder_tokens order
    (boundTokens "limit" limit ++ (boundTokens "offset" offset ++ []))
    (by cases limit <;> cases offset <;> rfl)
  have hwhere := parseWhere_tokens hq.filter
    (orderTokens order ++ (boundTokens "limit" limit ++ (boundTokens "offset" offset ++ [])))
    (by cases order <;> cases limit <;> cases offset <;> rfl)
  have hsel : parseStmt (Query.tokens ⟨column, table, filter, order, limit, offset⟩) =
      (parseWhere (whereTokens filter ++ (orderTokens order ++
        (boundTokens "limit" limit ++ (boundTokens "offset" offset ++ []))))).bind fun p =>
        (parseOrder p.2).bind fun o => (parseBound "limit" o.2).bind fun l =>
          (parseBound "offset" l.2).bind fun f =>
            if f.2 = [] then some (.select ⟨column, table, p.1, o.1, l.1, f.1⟩) else none := by
    cases column <;> rfl
  rw [hsel, hwhere, Option.bind_some, horder, Option.bind_some, hlimit, Option.bind_some, hoffset]
  rfl

/-! ## 7. A text of one statement -/

theorem statements_one {ts : List Token} (hne : ts ≠ []) (hts : Token.sign 59 ∉ ts) :
    statements (ts ++ [.sign 59]) = [ts] := by
  have hcut : (ts ++ [Token.sign 59]).splitOn (Token.sign 59) = [ts, []] := by
    have h : ([Token.sign 59].intercalate [ts, []]).splitOn (Token.sign 59) = [ts, []] :=
      List.splitOn_intercalate _ (by simpa using hts) (by simp)
    simpa [List.intercalate_cons_cons] using h
  unfold statements
  rw [hcut]
  simp [hne]

theorem ne_nil_of_parse {ts : List Token} {st : Stmt} (h : parseStmt ts = some st) : ts ≠ [] := by
  rintro rfl
  cases h

/-- **A text of one statement does what the statement does.** -/
theorem execText_one {db db' : Db} {sql : Bytes} {ts : List Token} {st : Stmt}
    (hread : Reads sql (ts ++ [.sign 59])) (hts : Token.sign 59 ∉ ts) (hp : parseStmt ts = some st)
    (hrun : st.run db = some db') : execText db sql = (db', true) := by
  unfold execText
  rw [hread.lex]
  dsimp only
  rw [statements_one (ne_nil_of_parse hp) hts, runAll, hp, Option.bind_some, hrun]
  rfl

/-- **A text of one query answers its rows.** -/
theorem queryText_one {db : Db} {visit : Visit} {sql : Bytes} {ts : List Token} {q : Query}
    (hread : Reads sql (ts ++ [.sign 59])) (hts : Token.sign 59 ∉ ts)
    (hp : parseStmt ts = some (.select q)) : queryText db visit sql = q.run visit db := by
  unfold queryText
  rw [hread.lex, Option.map_some, statements_one (ne_nil_of_parse hp) hts]
  dsimp only
  rw [hp]

end Viral.Lib.Sql
