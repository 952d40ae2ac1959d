import ResourceSchema.Proofs.Dependency.Canonical
import ResourceSchema.Proofs.Description.Arrangement
import ResourceSchema.Proofs.Schema.Arrangement

/-!
# Resources that nothing relates to

A resource without relationships that no other resource points at may come or go.  It has nothing to
be seen from another end, no look-up that linking needs ends at it, and in the graph it is a
resource without dependencies that nothing depends on.  So the other resources, their definitions
and the statements for requests on them are what they are without it, and a migration has its table
and its trigger between the statements that there are without it.
-/

namespace ResourceSchema

open Sql

variable {rs first last : List Resource} {a r : Resource} {s s' : DefinitionSet} {d : Definition}
variable {m : Migration} {name : String} {ds : List Definition}

/-- The resource has no relationships, and no resource of the list has one to it. -/
structure Resource.IsUnrelated (a : Resource) (rs : List Resource) : Prop where
  empty : a.relationships = .empty
  new : a.name ∉ rs.map Resource.name
  untargeted : ∀ r ∈ rs, ∀ name rel, r.relationships.get? name = some rel → rel.resource ≠ a.name

/-! ## Inverses -/

theorem Resource.hosted_of_empty (h : r.relationships = .empty) : r.hosted = [] := by
  rw [hosted, h]
  rfl

theorem Resource.IsUnrelated.withInverses (h : a.IsUnrelated rs) : a.withInverses rs = a := by
  refine List.foldlRecOn (motive := fun a' ↦ a' = a) _ _ rfl fun a' ha' k hk ↦ ?_
  obtain ⟨r, hr, hk⟩ := List.mem_flatMap.mp hk
  obtain ⟨-, -, hrel, -⟩ := mem_hosted_iff.mp hk
  rw [ha', Resource.receive, if_neg (h.untargeted r hr k.name k.relationship hrel).symm]

/-- An inverse points at a resource of the list. -/
theorem Resource.IsUnrelated.addInverses (h : a.IsUnrelated rs) :
    a.IsUnrelated (addInverses rs) where
  empty := h.empty
  new := by
    rw [map_name_addInverses]
    exact h.new
  untargeted := by
    intro r' hr' name rel hrel
    obtain ⟨r, hr, hgains⟩ := exists_of_mem_right (gainsInverses_addInverses rs) hr'
    rcases hgains.added name rel hrel with hdeclared | ⟨k, hk, -, -, rfl⟩
    · exact h.untargeted r hr name rel hdeclared
    · obtain ⟨b, hb, hk⟩ := List.mem_flatMap.mp hk
      obtain ⟨hsource, -⟩ := mem_hosted_iff.mp hk
      exact fun hname ↦ h.new (List.mem_map.mpr ⟨b, hb, hsource.symm.trans hname⟩)

/-- The others gain the inverses that they gain without the resource. -/
theorem addInverses_insert (distinct : ((first ++ a :: last).map Resource.name).Nodup)
    (h : a.IsUnrelated (first ++ last)) :
    ∃ first' last', first'.length = first.length ∧ addInverses (first ++ last) = first' ++ last' ∧
      addInverses (first ++ a :: last) = first' ++ a :: last' := by
  have hhosted : (first ++ a :: last).flatMap Resource.hosted =
      (first ++ last).flatMap Resource.hosted := by
    rw [List.flatMap_append, List.flatMap_append, List.flatMap_cons,
      Resource.hosted_of_empty h.empty, List.nil_append]
  have hwith : Resource.withInverses (first ++ a :: last) =
      Resource.withInverses (first ++ last) := by
    funext r
    rw [Resource.withInverses, hhosted]
    rfl
  have hsublist := ((List.sublist_cons_self a last).append_left first).map Resource.name
  refine ⟨first.map (Resource.withInverses (first ++ last)),
    last.map (Resource.withInverses (first ++ last)), List.length_map _, ?_, ?_⟩
  · rw [addInverses_eq_map (distinct.sublist hsublist), List.map_append]
  · rw [addInverses_eq_map distinct, hwith, List.map_append, List.map_cons, h.withInverses]

/-! ## Linking -/

/-- What is linked without the resource is linked in the same way with it. -/
theorem link_insert {rel : Relationship} (htarget : rel.resource ≠ a.name) (r : Resource)
    (name : String) : r.link (first ++ a :: last) name rel = r.link (first ++ last) name rel := by
  unfold Resource.link resourceNamed?
  rw [find?_reverse_key_insert htarget.symm]

theorem define_insert (h : a.IsUnrelated (first ++ last)) (hr : r ∈ first ++ last)
    (defined : r.define (first ++ last) = .ok d) : r.define (first ++ a :: last) = .ok d := by
  obtain ⟨hresource, hlinks⟩ := Resource.define_eq_ok_iff.mp defined
  refine Resource.define_eq_ok_iff.mpr ⟨hresource, forall₂_imp_of_mem hlinks fun e he l hl ↦ ?_⟩
  rwa [link_insert (h.untargeted r hr e.1 e.2 (SortedMap.get?_eq_some_iff.mpr he))]

/-- The definition of a resource without relationships. -/
theorem define_of_empty (hempty : a.relationships = .empty) : a.define rs = .ok ⟨a, []⟩ := by
  refine Resource.define_eq_ok_iff.mpr ⟨rfl, ?_⟩
  rw [hempty]
  exact .nil

/-- The definitions without the resource are there with it, and look-ups find them. -/
theorem exists_build_insert (h : a.IsUnrelated (first ++ last))
    (built : DefinitionSet.build (first ++ last) = .ok s) :
    ∃ s', DefinitionSet.build (first ++ a :: last) = .ok s' ∧
      ∀ name, name ≠ a.name → s'.get? name = s.get? name := by
  have hdefine := forall₂_imp_of_mem (build_eq_ok_iff.mp built) fun r hr _ ↦ define_insert h hr
  obtain ⟨ds, ds', hds, hfirst, hlast⟩ := exists_of_forall₂_append hdefine
  refine ⟨⟨ds ++ ⟨a, []⟩ :: ds'⟩, build_eq_ok_iff.mpr ?_, fun name hname ↦ ?_⟩
  · exact List.rel_append hfirst (.cons (define_of_empty h.empty) hlast)
  · rw [DefinitionSet.get?, DefinitionSet.get?, hds]
    have hkey : (⟨a, []⟩ : Definition).name ≠ name := hname.symm
    exact find?_reverse_key_insert hkey

/-! ## The migration -/

/-- The migration `m` is `m'` without the resource of `p`. -/
structure Migration.Omits (m m' : Migration) (p : ResourceTable) : Prop where
  order : m.order = m'.order.erase p.definition.name
  steps : ∃ before after, m'.steps = before ++ p.steps ++ after ∧ m.steps = before ++ after

/-- A resource that links nothing can be left out where the order of the others is found. -/
theorem omits_of_layout {m' : Migration} {p : ResourceTable} {before after : List ResourceTable}
    (layout : m'.Layout s' (before ++ p :: after)) (hlinks : p.definition.linkTables = [])
    (ordered : (DependencyGraph.ofResources s.resources).order =
      .ok (m'.order.erase p.definition.name))
    (hparts : List.Forall₂ (fun name q ↦ ResourceTable.IsFor q s name)
      (m'.order.erase p.definition.name) (before ++ after)) :
    ∃ m, s.migration = .ok m ∧ m.Omits m' p := by
  have hflat : ((before ++ p :: after).flatMap fun q ↦ q.definition.linkTables) =
      (before ++ after).flatMap fun q ↦ q.definition.linkTables := by
    rw [List.flatMap_append, List.flatMap_append, List.flatMap_cons, hlinks, List.nil_append]
  have hsublist := ((List.sublist_cons_self p after).append_left before).map ResourceTable.table
  have hcreatable := layout.creatable.sublist (hsublist.append_right _)
  have hsteps := layout.steps
  rw [hflat] at hcreatable hsteps
  refine ⟨⟨m'.order.erase p.definition.name, _⟩,
    migration_eq_ok_iff.mpr ⟨_, ordered, hparts, rfl, hcreatable⟩, rfl,
    .updatedAtFunction :: before.flatMap ResourceTable.steps,
    after.flatMap ResourceTable.steps ++
      ((before ++ after).flatMap fun q ↦ q.definition.linkTables).map .createTable, ?_, ?_⟩
  · simp [hsteps]
  · simp

section Build

variable (h : a.IsUnrelated (first ++ last))
variable (built : DefinitionSet.build (first ++ last) = .ok s)
variable (built' : DefinitionSet.build (first ++ a :: last) = .ok s')
include h built'

theorem get?_unrelated (distinct : ((first ++ a :: last).map Resource.name).Nodup) :
    s'.get? a.name = some ⟨a, []⟩ := by
  have ha : a ∈ first ++ a :: last := List.mem_append_right _ List.mem_cons_self
  obtain ⟨d, hget, hdefine⟩ := exists_get? built' distinct ha
  rw [define_of_empty h.empty, Except.ok.injEq] at hdefine
  rw [hget, hdefine]

include built

theorem get?_insert (hname : name ≠ a.name) : s'.get? name = s.get? name := by
  obtain ⟨s₀, built₀, found⟩ := exists_build_insert h built
  obtain rfl : s₀ = s' := Except.ok.inj (built₀.symm.trans built')
  exact found name hname

/-- The others have the order that they have without the resource. -/
theorem order_insert {out : List String}
    (ordered : (DependencyGraph.ofResources s'.resources).order = .ok out) :
    (DependencyGraph.ofResources s.resources).order = .ok (out.erase a.name) ∧
      ∃ before after, out = before ++ a.name :: after ∧ a.name ∉ before ++ after := by
  rw [resources_of_build built', DependencyGraph.ofResources_insert h.empty] at ordered
  rw [resources_of_build built]
  have hnew : (DependencyGraph.ofResources (first ++ last)).dependencies.contains a.name =
      false := by
    rw [← Bool.not_eq_true,
      DependencyGraph.contains_ofResources fun r hr _ ↦ dependency_mem built hr]
    exact h.new
  refine ⟨DependencyGraph.order_of_addNode (DependencyGraph.closed_ofResources _) hnew ordered, ?_⟩
  obtain ⟨hnodup, hcomplete, -⟩ := DependencyGraph.arranges_of_order ordered
  obtain ⟨before, after, rfl⟩ := List.append_of_mem
    ((hcomplete a.name).mpr (DependencyGraph.contains_addNode.mpr (.inl rfl)))
  exact ⟨before, after, rfl, (List.nodup_cons.mp (List.nodup_middle.mp hnodup)).1⟩

/-- With the resource there is no migration unless there is one without it, which is the same but
for the statements for the resource. -/
theorem omits_of_migration (distinct : ((first ++ a :: last).map Resource.name).Nodup)
    {m' : Migration} (migrated : s'.migration = .ok m') :
    ∃ m p, s.migration = .ok m ∧ p.IsFor s' a.name ∧ m.Omits m' p := by
  obtain ⟨parts, layout⟩ := migration_eq_ok_iff.mp migrated
  obtain ⟨ordered, before, after, horder, hnot⟩ := order_insert h built built' layout.ordered
  -- the tables before that of the resource, and those after it
  have hparts := layout.resources
  rw [horder] at hparts
  obtain ⟨ps, tail, rfl, hps, htail⟩ := exists_of_forall₂_append hparts
  obtain ⟨p, qs, hp, hqs, rfl⟩ := List.forall₂_cons_left_iff.mp htail
  have hdefinition : p.definition = ⟨a, []⟩ :=
    Option.some.inj (hp.found.symm.trans (get?_unrelated h built' distinct))
  have hname : p.definition.name = a.name := congrArg Definition.name hdefinition
  have herase : m'.order.erase a.name = before ++ after := by
    rw [horder, List.erase_append_right _ fun hmem ↦ hnot (List.mem_append_left _ hmem),
      List.erase_cons_head]
  have hothers : List.Forall₂ (fun name q ↦ ResourceTable.IsFor q s name)
      (m'.order.erase a.name) (ps ++ qs) := by
    rw [herase]
    refine forall₂_imp_of_mem (List.rel_append hps hqs) fun name hmem q hq ↦ ⟨?_, hq.table⟩
    rw [← get?_insert h built built' (ne_of_mem_of_not_mem hmem hnot)]
    exact hq.found
  rw [← hname] at ordered hothers
  obtain ⟨m, hm, homits⟩ := omits_of_layout layout (by rw [hdefinition]; rfl) ordered hothers
  exact ⟨m, p, hm, hp, homits⟩

end Build

/-! ## From descriptions -/

/-- No relationship of the description points at the resource with the name `name`. -/
def Description.Avoids (d : Description) (name : String) : Prop :=
  ∀ e ∈ d.relationships.entries, (e.2.complete e.1).resource ≠ name

instance (d : Description) (name : String) : Decidable (d.Avoids name) :=
  inferInstanceAs (Decidable (∀ e ∈ d.relationships.entries, _))

theorem Description.isUnrelated_complete {ds : List Description} {d : Description}
    (hempty : d.relationships = .empty) (hnew : d.name ∉ ds.map Description.name)
    (havoids : ∀ e ∈ ds, e.Avoids d.name) :
    d.complete.IsUnrelated (ds.map Description.complete) where
  empty := by
    show d.relationships.map RelationshipForm.complete = .empty
    rw [hempty]
    rfl
  new := by
    rw [List.map_map]
    exact hnew
  untargeted := by
    intro r hr name rel hrel
    obtain ⟨e, he, rfl⟩ := List.mem_map.mp hr
    have hmap : (e.relationships.map RelationshipForm.complete).get? name = some rel := hrel
    rw [SortedMap.get?_map, Option.map_eq_some_iff] at hmap
    obtain ⟨form, hform, rfl⟩ := hmap
    exact havoids e he (name, form) (SortedMap.get?_eq_some_iff.mp hform)

section Described

variable {before after : List Description} {e : Description} {rs' : List Resource}
variable (accepted : resourcesOf (before ++ after) = .ok rs)
variable (unrelated : e.relationships = .empty)
variable (avoided : ∀ d ∈ before ++ after, d.Avoids e.name)
variable (accepted' : resourcesOf (before ++ e :: after) = .ok rs')
include accepted unrelated avoided accepted'

/-- The resource stands among the others where its description does. -/
theorem exists_resources_insert :
    ∃ first last, first.length = before.length ∧ rs = first ++ last ∧
      rs' = first ++ e.complete :: last ∧ e.complete.IsUnrelated (first ++ last) := by
  obtain ⟨-, rfl⟩ := resourcesOf_eq_ok_iff.mp accepted
  obtain ⟨hissues, rfl⟩ := resourcesOf_eq_ok_iff.mp accepted'
  have hnew : e.name ∉ (before ++ after).map Description.name := by
    have hnames := (issues_eq_nil_iff.mp hissues).2
    rw [List.map_append, List.map_cons, List.nodup_middle, ← List.map_append] at hnames
    exact (List.nodup_cons.mp hnames).1
  have h := Description.isUnrelated_complete unrelated hnew avoided
  have distinct := distinct_of_issues hissues
  rw [List.map_append] at h ⊢
  rw [List.map_append, List.map_cons] at distinct ⊢
  obtain ⟨first, last, hlength, hrs, hrs'⟩ := addInverses_insert distinct h
  exact ⟨first, last, hlength.trans (List.length_map _), hrs, hrs', hrs ▸ h.addInverses⟩

/-- **A resource that nothing relates to changes nothing else.**  Wherever it is put into a set, the
other resources stay as they are, the set can still be linked, and requests on the others have the
same statements.  A migration of the set is one without the resource, but for its own statements. -/
theorem unrelated_changes_nothing (built : DefinitionSet.build rs = .ok s) :
    (∃ first last, first.length = before.length ∧ rs = first ++ last ∧
      rs' = first ++ e.complete :: last) ∧
    ∃ s', DefinitionSet.build rs' = .ok s' ∧
      (∀ authorization request, request.resource ≠ e.name →
        (⟨s', authorization⟩ : QueryCompiler).compile request =
          (⟨s, authorization⟩ : QueryCompiler).compile request) ∧
      ∀ m', s'.migration = .ok m' →
        ∃ m p, s.migration = .ok m ∧ p.IsFor s' e.name ∧ m.Omits m' p := by
  obtain ⟨first, last, hlength, rfl, rfl, h⟩ :=
    exists_resources_insert accepted unrelated avoided accepted'
  obtain ⟨s', built', found⟩ := exists_build_insert h built
  refine ⟨⟨first, last, hlength, rfl, rfl⟩, s', built', ?_, fun m' migrated ↦ ?_⟩
  · exact fun authorization request hname ↦ compile_congr (found _ hname) authorization
  · exact omits_of_migration h built built' (accepted_distinct accepted') migrated

end Described

/-- Something in a household that has nothing to do with persons and cats. -/
def dish : Description := (Description.named "dish").withAttribute "material" "text"

/-- The dish is created first, and then persons and cats as they are without it. -/
theorem unrelated_changes_nothing_household :
    ∃ rs s rs' s' m', resourcesOf (household.take 1 ++ household.drop 1) = .ok rs ∧
      DefinitionSet.build rs = .ok s ∧
      resourcesOf (household.take 1 ++ dish :: household.drop 1) = .ok rs' ∧
      DefinitionSet.build rs' = .ok s' ∧ s'.migration = .ok m' ∧
      m'.order = ["dish", "person", "cat"] ∧
      (∀ request, request.resource ≠ "dish" →
        (⟨s', none⟩ : QueryCompiler).compile request =
          (⟨s, none⟩ : QueryCompiler).compile request) ∧
      ∃ m p, s.migration = .ok m ∧ p.IsFor s' "dish" ∧ m.Omits m' p := by
  have hwithout : ((resourcesOf (household.take 1 ++ household.drop 1)).toOption.any fun rs ↦
      (DefinitionSet.build rs).isOk) = true := by
    decide +kernel
  have hwith : ((resourcesOf (household.take 1 ++ dish :: household.drop 1)).toOption.any fun rs ↦
      (DefinitionSet.build rs).toOption.any fun s ↦ s.migration.toOption.any fun m ↦
        decide (m.order = ["dish", "person", "cat"])) = true := by
    decide +kernel
  simp only [Option.any_eq_true, toOption_eq_some_iff, decide_eq_true_iff] at hwithout hwith
  obtain ⟨rs, accepted, hbuilt⟩ := hwithout
  obtain ⟨s, built⟩ := exists_eq_ok hbuilt
  obtain ⟨rs', accepted', s', built', m', migrated, horder⟩ := hwith
  obtain ⟨-, s₀, built₀, hcompile, hmigration⟩ :=
    unrelated_changes_nothing accepted rfl (by decide +kernel) accepted' built
  obtain rfl : s₀ = s' := Except.ok.inj (built₀.symm.trans built')
  exact ⟨rs, s, rs', s₀, m', accepted, built, accepted', built', migrated, horder, hcompile none,
    hmigration m' migrated⟩

end ResourceSchema
