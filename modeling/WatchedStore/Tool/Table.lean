/-!
# Tables as text

A table is drawn with rules between its rows and bars between its cells. Every column is as wide as its
widest cell.
-/

namespace WatchedStore.Tool.Table

/-- The widths of the columns. -/
def widths : List (List String) → List Nat
  | [] => []
  | row :: rows => rows.foldl (fun widest row => (widest.zip row).map fun (w, cell) => max w cell.length)
      (row.map String.length)

/-- A cell, filled up with blanks. -/
def padded (width : Nat) (cell : String) : String :=
  cell ++ String.ofList (List.replicate (width - cell.length) ' ')

/-- A row between bars. -/
def rowLine (widths : List Nat) (row : List String) : String :=
  "|" ++ String.join ((widths.zip row).map fun (w, cell) => " " ++ padded w cell ++ " |")

/-- A rule. -/
def rule (widths : List Nat) : String :=
  "+" ++ String.join (widths.map fun w => String.ofList (List.replicate (w + 2) '-') ++ "+")

/-- The lines of a table; a table without rows has none. -/
def lines (rows : List (List String)) : List String :=
  if rows.isEmpty then []
  else
    let widths := widths rows
    "" :: rule widths :: rows.flatMap fun row => [rowLine widths row, rule widths]

end WatchedStore.Tool.Table
