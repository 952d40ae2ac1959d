import ResourceSchema.Proofs.Sql.Fragment
import ResourceSchema.Sql.Table
import ResourceSchema.Sql.Trigger

/-!
# The statements of a migration are closed

Every statement is fixed text with fragments in it.  The fixed text between two fragments starts
and ends at the edge of a token, so a statement is closed where its fragments are.
-/

namespace ResourceSchema.Sql

/-! ## Between two fragments -/

theorem glue_blank : Glue " " := ⟨rfl, rfl⟩

theorem glue_comma : Glue ", " := ⟨rfl, rfl⟩

theorem glue_close : Glue ")" := ⟨rfl, rfl⟩

/-! ## Tables and triggers -/

theorem ReferentialAction.render_closed (action : ReferentialAction) : Closed action.render := by
  cases action with
  | cascade | setNull | restrict => rfl

theorem Reference.render_closed (r : Reference) : Closed r.render := by
  have hstart : Clean "REFERENCES " := rfl
  have hopen : Glue "(" := ⟨rfl, rfl⟩
  have hUpdate : Glue " ON UPDATE " := ⟨rfl, rfl⟩
  have hDelete : Glue " ON DELETE " := ⟨rfl, rfl⟩
  have hcolumn := ((hstart.append_closed (escaped_closed r.table)).append_glue hopen).append_closed
    (escaped_closed r.column)
  unfold Reference.render
  refine (((hcolumn.append_glue glue_close).closed).append_tail ?_).append_tail ?_
  · cases r.onUpdate with
    | none => exact tail_empty
    | some action => exact hUpdate.append_closed action.render_closed
  · cases r.onDelete with
    | none => exact tail_empty
    | some action => exact hDelete.append_closed action.render_closed

/-- What the column has from a description is closed. -/
structure Column.IsSafe (c : Column) : Prop where
  type : Closed c.type
  default : ∀ expression, c.default = some expression → Closed expression

theorem Column.render_closed {c : Column} (h : c.IsSafe) : Closed c.render := by
  have hdefault : Glue " DEFAULT " := ⟨rfl, rfl⟩
  have hkey : Tail " PRIMARY KEY" := ⟨rfl, rfl⟩
  have hnull : Tail " NOT NULL" := ⟨rfl, rfl⟩
  have hunique : Tail " UNIQUE" := ⟨rfl, rfl⟩
  have htype := ((escaped_closed c.name).append_glue glue_blank).append_closed h.type
  unfold Column.render
  refine (((htype.append_tail (tail_ite hkey tail_empty)).append_tail ?_).append_tail
    (tail_ite tail_empty ?_)).append_tail ?_
  · cases c.reference with
    | none => exact tail_empty
    | some reference => exact glue_blank.append_closed reference.render_closed
  · exact (tail_ite tail_empty hnull).append (tail_ite hunique tail_empty)
  · cases hc : c.default with
    | none => exact tail_empty
    | some expression => exact hdefault.append_closed (h.default expression hc)

theorem Table.lines_closed {t : Table} (h : ∀ c ∈ t.columns, c.IsSafe) :
    ∀ line ∈ t.lines, Closed line := by
  have hkey : Clean "PRIMARY KEY (" := rfl
  intro line hline
  rcases List.mem_append.mp hline with hline | hline
  · obtain ⟨c, hc, rfl⟩ := List.mem_map.mp hline
    exact Column.render_closed (h c hc)
  · split at hline
    · cases hline
    · obtain rfl := List.mem_singleton.mp hline
      have hcolumns := closed_intercalate glue_comma
        (List.forall_mem_map.mpr fun column (_ : column ∈ t.primaryKey) ↦ escaped_closed column)
      exact ((hkey.append_closed hcolumns).append_glue glue_close).closed

theorem Table.render_closed {t : Table} (h : ∀ c ∈ t.columns, c.IsSafe) : Closed t.render := by
  have hstart : Clean "CREATE TABLE " := rfl
  have hopen : Glue " (\n" := ⟨rfl, rfl⟩
  have hline : Glue ",\n" := ⟨rfl, rfl⟩
  have hindent : Clean "    " := rfl
  have hclose : Glue "\n)" := ⟨rfl, rfl⟩
  have hname := (hstart.append_closed (escaped_closed t.name)).append_glue hopen
  have hlines := closed_intercalate hline
    (List.forall_mem_map.mpr fun line hmem ↦ hindent.append_closed (Table.lines_closed h line hmem))
  exact ((hname.append_closed hlines).append_glue hclose).closed

/-- The body of the function stands between two `$$`. -/
theorem renderUpdatedAtFunction_closed : Closed renderUpdatedAtFunction := by
  show (scan .outside renderUpdatedAtFunction.toList).any Mode.isOutside = true
  decide +kernel

theorem renderUpdatedAtTrigger_closed (table : Ident) : Closed (renderUpdatedAtTrigger table) := by
  have hstart : Clean "CREATE TRIGGER " := rfl
  have hevent : Glue " BEFORE UPDATE ON " := ⟨rfl, rfl⟩
  have haction : Glue " FOR EACH ROW EXECUTE PROCEDURE " := ⟨rfl, rfl⟩
  have harguments : Glue "()" := ⟨rfl, rfl⟩
  have htrigger := (hstart.append_closed
    (escaped_closed ⟨Name.updatedAtTrigger table.raw⟩)).append_glue hevent
  have htable := (htrigger.append_closed (escaped_closed table)).append_glue haction
  exact ((htable.append_closed (escaped_closed updatedAtFunction)).append_glue harguments).closed

end ResourceSchema.Sql
