import ResourceSchema.Resource.Cardinality

/-!
# Names derived from resources and relationships

Every table, column, clause and trigger gets its name here, from the names in a description alone.
-/

namespace ResourceSchema.Name

/-- What separates the columns of meta fields from those of attributes. -/
def metaPrefix : String := "meta_"

/-- The key column of every resource table. -/
def idColumn : String := "id"

/-- The plural form of a resource that gives none. -/
def defaultPlural (name : String) : String := name ++ "s"

/-- Drops an `s` at the end, unless nothing else would be left. -/
def singular (name : String) : String :=
  match name.toList.reverse with
  | 's' :: c :: rest => String.ofList (c :: rest).reverse
  | _ => name

/-- The column of a meta field. -/
def metaColumn (key : String) : String := metaPrefix ++ key

/-- The column in which a host relationship stores its key. -/
def foreignKeyColumn (relationship : String) : String := relationship ++ "_id"

/-- The output column with the related id, or with the related ids of a to-many relationship. -/
def columnAlias (relationship : String) (cardinality : Cardinality) : String :=
  if cardinality.isToMany then singular relationship ++ "_ids" else foreignKeyColumn relationship

/-- The table that links the rows of a many-to-many relationship. -/
def associativeTable (host guest : String) : String := host ++ "_" ++ guest

/-- The column of a link table with the host's id. -/
def associativeHostColumn (host : String) : String := foreignKeyColumn host

/-- The column of a link table with the guest's id. Where a resource is linked to itself the
relationship gives the name, since both columns would have the same one otherwise. -/
def associativeGuestColumn (host guest relationship : String) : String :=
  foreignKeyColumn (if host = guest then relationship else guest)

/-- The `WITH` clause through which a relationship is read. -/
def virtualTable (relationship : String) : String := relationship ++ "_virtual_host"

/-- The trigger function that every table shares. -/
def updatedAtFunction : String := "set_" ++ metaColumn "updated_at"

/-- The trigger of one table. -/
def updatedAtTrigger (table : String) : String := table ++ "_" ++ updatedAtFunction

end ResourceSchema.Name
