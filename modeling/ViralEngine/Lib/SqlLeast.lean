/-
  File:      ViralEngine/Lib/SqlLeast.lean
  Subject:   TWO MORE STATEMENTS OF SQL: A SUM, AND DELETING THE LEAST ROW. No program fact.

  `SELECT SUM(column) FROM table` and `DELETE FROM table WHERE key = (SELECT column FROM source
  ORDER BY order ASC LIMIT 1)`, over the tables of Lib/Sql.lean. A sum of integers is added up row
  by row, in the order in which the rows come by, and is an error as soon as it leaves 64 bits.
  Without rows it is NULL, and a comparison with NULL holds of no row.

  * `Sum`, `DeleteLeast`, `parseSum`, `parseDeleteLeast` -- the statements and their reading;
  * `sumFrom`, `Sum.run`, `DeleteLeast.run` -- what they do;
  * `querySum`, `execLeast` -- whole texts;
  * `sumFrom_eq`, `sumFrom_some` -- a sum whose parts all have 64 bits, and what an answer is;
  * `leastRow_spec` -- the first row of an ascending order is a least one.
-/
import ViralEngine.Lib.Sql

namespace Viral.Lib.Sql

/-! ## 1. Statements -/

/-- `SELECT SUM` of a column. -/
structure Sum where
  column : Bytes
  table : Bytes
  deriving DecidableEq, Repr

/-- `DELETE` of the row with the least value in a column. -/
structure DeleteLeast where
  table : Bytes
  key : Bytes
  column : Bytes
  source : Bytes
  order : Bytes
  deriving DecidableEq, Repr

/-- A whole `SELECT SUM`. -/
def parseSum (ts : List Token) : Option Sum := do
  let ts ← words ["select", "sum"] ts
  let ts ← sign 40 ts
  let (column, ts) ← name ts
  let ts ← sign 41 ts
  let ts ← word "from" ts
  let (table, ts) ← name ts
  if ts = [] then some ⟨column, table⟩ else none

/-- A whole `DELETE` of the least row. -/
def parseDeleteLeast (ts : List Token) : Option DeleteLeast := do
  let ts ← words ["delete", "from"] ts
  let (table, ts) ← name ts
  let ts ← word "where" ts
  let (key, ts) ← name ts
  let ts ← sign 61 ts
  let ts ← sign 40 ts
  let ts ← word "select" ts
  let (column, ts) ← name ts
  let ts ← word "from" ts
  let (source, ts) ← name ts
  let ts ← words ["order", "by"] ts
  let (order, ts) ← name ts
  let ts ← words ["asc", "limit"] ts
  let (limit, ts) ← parseValue ts
  if limit = .int 1 ∧ ts = [.sign 41] then some ⟨table, key, column, source, order⟩ else none

/-! ## 2. What they do -/

/-- The integers of 64 bits. -/
def Fits (n : Int) : Prop := -2 ^ 63 ≤ n ∧ n < 2 ^ 63

instance (n : Int) : Decidable (Fits n) := inferInstanceAs (Decidable (_ ∧ _))

/-- The sum from `acc` on; `none` is the error "integer overflow". -/
def sumFrom (acc : Int) : List Int → Option Int
  | [] => some acc
  | n :: ns => if Fits (acc + n) then sumFrom (acc + n) ns else none

/-- **The answer of a SUM**: `none` is an error, `some none` is NULL. -/
def Sum.run (q : Sum) (visit : Visit) (db : Db) : Option (Option Int) := do
  let t ← db.table q.table
  let i ← t.index q.column
  match visit.order t.rows with
  | [] => some none
  | rows => (sumFrom 0 (rows.map (intAt i))).map some

/-- `r` comes in front of `s`, or they tie, in ascending order of column `i`. -/
def Ascending (i : Nat) (r s : Row) : Prop := intAt i r ≤ intAt i s

instance (i : Nat) : DecidableRel (Ascending i) := fun _ _ => inferInstanceAs (Decidable (_ ≤ _))

instance (i : Nat) : Std.Total (Ascending i) := ⟨fun r s => le_total (intAt i r) (intAt i s)⟩

instance (i : Nat) : IsTrans Row (Ascending i) := ⟨fun _ _ _ h1 h2 => le_trans h1 h2⟩

/-- The first row in ascending order of column `i`. Rows that tie stay in the order they came
    by. -/
def leastRow (visit : Visit) (i : Nat) (rows : List Row) : Option Row :=
  ((visit.order rows).insertionSort (Ascending i)).head?

/-- **The rows that are left.** -/
def DeleteLeast.run (st : DeleteLeast) (visit : Visit) (db : Db) : Option Db := do
  let src ← db.table st.source
  let i ← src.index st.column
  let o ← src.index st.order
  let least := (leastRow visit o src.rows).bind fun r => r[i]?
  db.modify st.table fun t => do
    let k ← t.index st.key
    some { t with rows := t.rows.filter fun r => least = none ∨ r[k]? ≠ least }

/-- The sum that a text asks for; `none` is an error. -/
def querySum (db : Db) (visit : Visit) (sql : Bytes) : Option (Option Int) :=
  match (lex sql).map statements with
  | some (ts :: _) => (parseSum ts).bind fun q => q.run visit db
  | _ => none

/-- Run a text that deletes the least row, and whether it went through. -/
def execLeast (db : Db) (visit : Visit) (sql : Bytes) : Db × Bool :=
  match (lex sql).map statements with
  | some [ts] =>
    match (parseDeleteLeast ts).bind fun st => st.run visit db with
    | some db' => (db', true)
    | none => (db, false)
  | _ => (db, false)

/-! ## 3. Sums and least rows -/

/-- The answer of a SUM over a table that is there. -/
theorem Sum.run_eq {q : Sum} {visit : Visit} {db : Db} {t : Table} {i : Nat}
    (ht : db.table q.table = some t) (hi : t.index q.column = some i) :
    q.run visit db = if visit.order t.rows = [] then some none
      else (sumFrom 0 ((visit.order t.rows).map (intAt i))).map some := by
  unfold Sum.run
  rw [ht]
  simp only [Option.bind_eq_bind, Option.bind_some, hi]
  cases visit.order t.rows with
  | nil => rfl
  | cons r rows => rfl

/-- A sum whose parts, from the left, all have 64 bits. -/
theorem sumFrom_eq {acc : Int} {ns : List Int}
    (h : ∀ l, l <+: ns → l ≠ [] → Fits (acc + l.sum)) : sumFrom acc ns = some (acc + ns.sum) := by
  induction ns generalizing acc with
  | nil => exact congrArg some (Int.add_zero acc).symm
  | cons n ns ih =>
    have hn : Fits (acc + n) := by
      have := h [n] ⟨ns, rfl⟩ (List.cons_ne_nil _ _)
      rwa [List.sum_cons, List.sum_nil, Int.add_zero] at this
    rw [sumFrom, if_pos hn, ih, List.sum_cons, Int.add_assoc]
    intro l hl _
    have := h (n :: l) (List.cons_prefix_cons.mpr ⟨rfl, hl⟩) (List.cons_ne_nil _ _)
    rwa [List.sum_cons, ← Int.add_assoc] at this

/-- What a sum answers is the sum. -/
theorem sumFrom_some {acc m : Int} {ns : List Int} (h : sumFrom acc ns = some m) :
    m = acc + ns.sum := by
  induction ns generalizing acc with
  | nil =>
    rw [List.sum_nil, Int.add_zero]
    exact (Option.some.inj h).symm
  | cons n ns ih =>
    unfold sumFrom at h
    split at h
    · rw [ih h, List.sum_cons, Int.add_assoc]
    · cases h

/-- **The first row of an ascending order is a least one.** -/
theorem leastRow_spec {visit : Visit} {i : Nat} {rows : List Row} {r : Row}
    (h : leastRow visit i rows = some r) : r ∈ rows ∧ ∀ s ∈ rows, intAt i r ≤ intAt i s := by
  have hperm : ((visit.order rows).insertionSort (Ascending i)).Perm rows :=
    (List.perm_insertionSort _ _).trans (visit.perm rows)
  have hsorted := List.pairwise_insertionSort (Ascending i) (visit.order rows)
  unfold leastRow at h
  cases hl : (visit.order rows).insertionSort (Ascending i) with
  | nil =>
    rw [hl] at h
    cases h
  | cons q l =>
    rw [hl] at h hsorted hperm
    cases h
    refine ⟨hperm.mem_iff.mp List.mem_cons_self, fun s hs => ?_⟩
    rcases List.mem_cons.mp (hperm.mem_iff.mpr hs) with rfl | hs
    · exact le_refl _
    · exact (List.pairwise_cons.mp hsorted).1 s hs

theorem leastRow_none {visit : Visit} {i : Nat} {rows : List Row}
    (h : leastRow visit i rows = none) : rows = [] := by
  have hperm : ((visit.order rows).insertionSort (Ascending i)).Perm rows :=
    (List.perm_insertionSort _ _).trans (visit.perm rows)
  unfold leastRow at h
  rw [List.head?_eq_none_iff] at h
  rw [h] at hperm
  exact hperm.nil_eq.symm

end Viral.Lib.Sql
