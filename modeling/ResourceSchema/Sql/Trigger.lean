import ResourceSchema.Name.Derived
import ResourceSchema.Name.Ident

/-!
# The trigger that keeps the time of the last update
-/

namespace ResourceSchema.Sql

/-- The column that the trigger refreshes. -/
def updatedAtColumn : Ident := ⟨Name.metaColumn "updated_at"⟩

/-- The function that the triggers of all tables run. -/
def updatedAtFunction : Ident := ⟨Name.updatedAtFunction⟩

/-- The statement that creates the function. -/
def renderUpdatedAtFunction : String :=
  "CREATE OR REPLACE FUNCTION " ++ updatedAtFunction.escaped ++
  "() RETURNS TRIGGER AS $$\nBEGIN\n    NEW." ++ updatedAtColumn.escaped ++
  " = now();\n    RETURN NEW;\nEND;\n$$ LANGUAGE plpgsql"

/-- The statement that creates the trigger of a table. -/
def renderUpdatedAtTrigger (table : Ident) : String :=
  "CREATE TRIGGER " ++ Ident.escaped ⟨Name.updatedAtTrigger table.raw⟩ ++
  " BEFORE UPDATE ON " ++ table.escaped ++
  " FOR EACH ROW EXECUTE PROCEDURE " ++ updatedAtFunction.escaped ++ "()"

end ResourceSchema.Sql
