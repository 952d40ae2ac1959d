import Mathlib.Data.List.Induction
import ResourceSchema.Sql.Table

/-!
# Columns that are built step by step

A column starts out nullable, and a chain of settings changes it one part at a time.  Whether it
allows NULL is up to the last setting that has a say in it, and three of them have: `notNull`,
`nullable` and `primaryKey`.  So a primary key refuses NULL unless it is told otherwise afterwards.
Its definition in DDL is the same in either case.
-/

namespace ResourceSchema.Sql.Column

/-- One step in which a column is built. -/
inductive Setting where
  | notNull
  | nullable (allows : Bool)
  | default (expression : Option String)
  | primaryKey
  | unique
  | references (reference : Reference)
deriving DecidableEq, Repr

/-- The column after a step. -/
def set (c : Column) : Setting → Column
  | .notNull => c.notNull
  | .nullable allows => c.setNullable allows
  | .default expression => c.setDefault expression
  | .primaryKey => c.asPrimaryKey
  | .unique => c.asUnique
  | .references reference => c.references reference

/-- A new column after a chain of settings. -/
def build (name : Ident) (type : String) (settings : List Setting) : Column :=
  settings.foldl set { name, type }

variable {c : Column} {name : Ident} {type : String} {settings before after : List Setting}
variable {setting : Setting} {allows : Bool}

/-! ## What a setting has a say in -/

/-- Whether the column allows NULL after the setting, if the setting has a say in it. -/
def Setting.allowsNull? : Setting → Option Bool
  | .notNull | .primaryKey => some false
  | .nullable allows => some allows
  | .default _ | .unique | .references _ => none

theorem Setting.allowsNull?_eq_some_true_iff :
    setting.allowsNull? = some true ↔ setting = .nullable true := by
  cases setting <;> simp [allowsNull?]

theorem nullable_set (c : Column) (setting : Setting) :
    (c.set setting).nullable = setting.allowsNull?.getD c.nullable := by
  cases setting <;> rfl

theorem primaryKey_set (c : Column) (setting : Setting) :
    (c.set setting).primaryKey = true ↔ setting = .primaryKey ∨ c.primaryKey = true := by
  cases setting <;> simp [set, notNull, setNullable, setDefault, asPrimaryKey, asUnique, references]

/-! ## Chains of settings -/

theorem build_concat (name : Ident) (type : String) (settings : List Setting) (setting : Setting) :
    build name type (settings ++ [setting]) = (build name type settings).set setting := by
  rw [build, List.foldl_append]
  rfl

/-- A column is the primary key once it has been made that. -/
theorem primaryKey_build :
    (build name type settings).primaryKey = true ↔ .primaryKey ∈ settings := by
  induction settings using List.reverseRecOn with
  | nil => simp [build]
  | append_singleton settings setting ih =>
      rw [build_concat, primaryKey_set, ih, List.mem_append, List.mem_singleton, or_comm, eq_comm]

/-- NULL is allowed after the column was made the primary key, and no later setting has a say. -/
def Reopened (settings : List Setting) : Prop :=
  ∃ before after, settings = before ++ .nullable true :: after ∧ .primaryKey ∈ before ∧
    ∀ setting ∈ after, setting.allowsNull? = none

theorem not_reopened_nil : ¬ Reopened [] := by
  rintro ⟨before, after, hsplit, -⟩
  exact List.append_ne_nil_of_right_ne_nil before (List.cons_ne_nil _ _) hsplit.symm

/-- The last setting allows NULL to the primary key, or leaves alone what was allowed before. -/
theorem reopened_concat_iff :
    Reopened (settings ++ [setting]) ↔
      (setting.allowsNull? = some true ∧ .primaryKey ∈ settings) ∨
        (setting.allowsNull? = none ∧ Reopened settings) := by
  rw [Setting.allowsNull?_eq_some_true_iff]
  constructor
  · rintro ⟨before, after, hsplit, hkey, hafter⟩
    rcases List.eq_nil_or_concat after with rfl | ⟨initial, last, rfl⟩
    · obtain ⟨rfl, hlast⟩ := List.append_inj' hsplit rfl
      exact .inl ⟨List.singleton_inj.mp hlast, hkey⟩
    · rw [List.concat_eq_append, ← List.cons_append, ← List.append_assoc] at hsplit
      obtain ⟨rfl, hlast⟩ := List.append_inj' hsplit rfl
      obtain rfl := List.singleton_inj.mp hlast
      rw [List.concat_eq_append, List.forall_mem_append, List.forall_mem_singleton] at hafter
      exact .inr ⟨hafter.2, before, initial, rfl, hkey, hafter.1⟩
  · rintro (⟨rfl, hkey⟩ | ⟨hnone, before, after, rfl, hkey, hafter⟩)
    · exact ⟨settings, [], rfl, hkey, nofun⟩
    · refine ⟨before, after ++ [setting], by simp, hkey, ?_⟩
      rw [List.forall_mem_append, List.forall_mem_singleton]
      exact ⟨hafter, hnone⟩

/-- A column that is built is a nullable primary key exactly if it is reopened. -/
theorem nullable_primaryKey_build :
    (build name type settings).primaryKey = true ∧ (build name type settings).nullable = true ↔
      Reopened settings := by
  induction settings using List.reverseRecOn with
  | nil => exact iff_of_false (fun h ↦ Bool.false_ne_true h.1) not_reopened_nil
  | append_singleton settings setting ih =>
      rw [reopened_concat_iff, ← ih, build_concat, primaryKey_set, nullable_set, primaryKey_build]
      cases hsay : setting.allowsNull? with
      | none =>
          have hne : setting ≠ .primaryKey := by
            rintro rfl
            cases hsay
          simp [hne]
      | some allows =>
          cases allows with
          | false => simp
          | true => simp [Setting.allowsNull?_eq_some_true_iff.mp hsay]

/-! ## Definitions in DDL -/

/-- That a primary key refuses NULL goes without saying. -/
theorem render_setNullable (h : c.primaryKey = true) (allows : Bool) :
    (c.setNullable allows).render = c.render := by
  simp [render, setNullable, h]

/-- **A column that is built is a nullable primary key exactly if NULL is allowed again behind the
setting that made it the primary key.**  Its definition in DDL does not show it. -/
theorem primaryKey_nullable_iff_reopened (name : Ident) (type : String) (settings : List Setting) :
    ((build name type settings).primaryKey = true ∧ (build name type settings).nullable = true ↔
      Reopened settings) ∧
    ((build name type settings).primaryKey = true → ∀ allows,
      ((build name type settings).setNullable allows).render =
        (build name type settings).render) :=
  ⟨nullable_primaryKey_build, render_setNullable⟩

/-- An `id` that is made the primary key, and then nullable, is both. -/
theorem nullable_primaryKey_id :
    (build ⟨"id"⟩ "SERIAL" [.primaryKey, .nullable true]).primaryKey = true ∧
      (build ⟨"id"⟩ "SERIAL" [.primaryKey, .nullable true]).nullable = true :=
  ⟨rfl, rfl⟩

/-- In the other order it refuses NULL. -/
example : (build ⟨"id"⟩ "SERIAL" [.nullable true, .primaryKey]).nullable = false := rfl

end ResourceSchema.Sql.Column
