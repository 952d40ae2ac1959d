import ResourceSchema.Main
import ResourceSchema.Proofs.Dependency.Counting
import ResourceSchema.Proofs.Description.Recompilation
import ResourceSchema.Proofs.Description.Report
import ResourceSchema.Proofs.Description.Wording
import ResourceSchema.Proofs.Relationship.Provenance
import ResourceSchema.Proofs.Relationship.Visibility
import ResourceSchema.Proofs.Request.Agreement
import ResourceSchema.Proofs.Request.Binding
import ResourceSchema.Proofs.Request.Header
import ResourceSchema.Proofs.Request.Prefilter
import ResourceSchema.Proofs.Request.Projection
import ResourceSchema.Proofs.Request.Writing
import ResourceSchema.Proofs.Schema.Declaration
import ResourceSchema.Proofs.Schema.Existence
import ResourceSchema.Proofs.Schema.Independence
import ResourceSchema.Proofs.Schema.Resolution
import ResourceSchema.Proofs.Sql.Binding
import ResourceSchema.Proofs.Sql.Column
import ResourceSchema.Proofs.Sql.Script
import ResourceSchema.Proofs.Sql.TypeGrammar
