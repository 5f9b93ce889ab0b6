import InfraLens.LibGbnf

/-! The grammar the copilot generates IQL with (copilot/grammar.py). -/
namespace InfraLens.Copilot
open LibGbnf Form

/-- The names of the rules. -/
inductive Rule where
  | root | ws | commaWs | tableName | columnName | funcName
  | integer | floatLit | stringLit | literal | intervalUnit | intervalExpr | binop
  | funcCall | primaryExpr | multExpr | addExpr | cmpExpr | andExpr | expr | exprList
  | asAlias | projection | projStar | projections | orderDir | orderItem | orderList
  | limitClause | offsetClause | groupClause | havingClause | whereClause | selectStmt

abbrev Catalog := List (String × List String)

def defaultTables : Catalog :=
  [("logs", ["timestamp_ns", "severity_number", "severity_text", "body",
      "trace_id", "span_id", "service_name", "attributes"]),
    ("metrics", ["timestamp_ns", "metric_name", "metric_type", "value",
      "labels", "service_name"]),
    ("traces", ["timestamp_ns", "trace_id", "span_id", "parent_span_id",
      "name", "service_name", "duration_ns", "status_code", "attributes"])]

def temporalFunctions : List String :=
  ["time_bucket", "rate", "delta", "histogram_quantile", "now"]

def aggregateFunctions : List String := ["count", "sum", "avg", "min", "max"]

def allFunctions : List String := temporalFunctions ++ aggregateFunctions

def unionColumns (catalog : Catalog) : List String :=
  (catalog.flatMap Prod.snd).foldl (fun seen c => if c ∈ seen then seen else seen ++ [c]) []

/-- The columns of the selected table, if there is one of that name. -/
def colNames (catalog : Catalog) (selectedTable : Option String) : List String :=
  match selectedTable.bind fun t => if t = "" then none else catalog.lookup t with
  | some cols => cols
  | none => unionColumns catalog

/-- The rules; no catalog, or an empty one, stands for the default. -/
def buildGbnfGrammar (tables : Option Catalog) (selectedTable : Option String) : Rule → Form Rule :=
  let catalog := (tables.filter fun t => !t.isEmpty).getD defaultTables
  let digit : Form Rule := chars Char.isDigit
  fun
  | .root => rule .selectStmt
  | .ws => plus (text " ")
  | .commaWs => text ", "
  | .tableName => oneOf (catalog.map Prod.fst)
  | .columnName => oneOf (colNames catalog selectedTable)
  | .funcName => oneOf allFunctions
  | .integer => plus digit
  | .floatLit => seq [plus digit, text ".", plus digit]
  | .stringLit => seq [text "'", many (chars (· ≠ '\'')), text "'"]
  | .literal => alt [rule .integer, rule .floatLit, rule .stringLit, text "TRUE", text "FALSE",
      text "NULL"]
  | .intervalUnit => oneOf ["minutes", "hours", "seconds", "days", "m", "h", "s", "d"]
  | .intervalExpr => seq [text "interval '", rule .integer, rule .ws, rule .intervalUnit, text "'"]
  | .binop => oneOf [" = ", " != ", " < ", " <= ", " > ", " >= "]
  | .funcCall => seq [rule .funcName, text "(", opt (rule .exprList), text ")"]
  | .primaryExpr => alt [rule .columnName, rule .literal, rule .funcCall, text "now()",
      rule .intervalExpr, seq [text "(", rule .expr, text ")"]]
  | .multExpr => seq [rule .primaryExpr, many (seq [oneOf [" * ", " / "], rule .primaryExpr])]
  | .addExpr => seq [rule .multExpr, many (seq [oneOf [" + ", " - "], rule .multExpr])]
  | .cmpExpr => seq [rule .addExpr, opt (seq [rule .binop, rule .addExpr])]
  | .andExpr => seq [rule .cmpExpr, many (seq [text " AND ", rule .cmpExpr])]
  | .expr => seq [rule .andExpr, many (seq [text " OR ", rule .andExpr])]
  | .exprList => seq [rule .expr, many (seq [rule .commaWs, rule .expr])]
  | .asAlias => seq [text " AS ", rule .columnName]
  | .projection => seq [rule .expr, opt (rule .asAlias)]
  | .projStar => text "*"
  | .projections => alt [rule .projStar,
      seq [rule .projection, many (seq [rule .commaWs, rule .projection])]]
  | .orderDir => oneOf [" ASC", " DESC"]
  | .orderItem => seq [rule .expr, opt (rule .orderDir)]
  | .orderList => seq [rule .orderItem, many (seq [rule .commaWs, rule .orderItem])]
  | .limitClause => seq [text " LIMIT ", rule .integer]
  | .offsetClause => seq [text " OFFSET ", rule .integer]
  | .groupClause => seq [text " GROUP BY ", rule .exprList]
  | .havingClause => seq [text " HAVING ", rule .expr]
  | .whereClause => seq [text " WHERE ", rule .expr]
  | .selectStmt => seq [text "SELECT ", rule .projections, text " FROM ", rule .tableName,
      opt (rule .whereClause), opt (rule .groupClause), opt (rule .havingClause),
      opt (seq [text " ORDER BY ", rule .orderList]), opt (rule .limitClause),
      opt (rule .offsetClause), text ";"]

theorem mem_unionColumns (catalog : Catalog) (c : String) (h : c ∈ unionColumns catalog) :
    ∃ p ∈ catalog, c ∈ p.2 := by
  have hseen : ∀ cols seen : List String,
      c ∈ cols.foldl (fun seen c => if c ∈ seen then seen else seen ++ [c]) seen →
        c ∈ seen ∨ c ∈ cols := by
    intro cols
    induction cols with
    | nil => exact fun seen hc => Or.inl hc
    | cons d cols ih =>
      intro seen hc
      cases ih _ hc with
      | inl hmem =>
        dsimp only at hmem
        split_ifs at hmem
        · exact Or.inl hmem
        · cases List.mem_append.mp hmem with
          | inl hold => exact Or.inl hold
          | inr hnew => exact Or.inr (List.mem_singleton.mp hnew ▸ List.mem_cons_self)
      | inr hmem => exact Or.inr (List.mem_cons_of_mem _ hmem)
  cases hseen _ _ h with
  | inl hnil => cases hnil
  | inr hmem => exact List.mem_flatMap.mp hmem

theorem mem_colNames (catalog : Catalog) (selectedTable : Option String) (c : String)
    (h : c ∈ colNames catalog selectedTable) : ∃ p ∈ catalog, c ∈ p.2 := by
  rw [colNames] at h
  split at h
  · next cols hcols =>
    obtain ⟨t, _, ht⟩ := Option.bind_eq_some_iff.mp hcols
    split_ifs at ht
    obtain ⟨l, r, hcatalog, _⟩ := List.lookup_eq_some_iff.mp ht
    exact ⟨(t, cols), by rw [hcatalog]; simp, h⟩
  · exact mem_unionColumns catalog c h

end InfraLens.Copilot
