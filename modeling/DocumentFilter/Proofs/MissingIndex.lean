/-
Warnings are exact.

A clause over a table warns of a column if and only if it compares on it and
the column is neither in the primary key nor indexed. It warns once, however
often and wherever the filter names the column, and in the order in which the
filter first names the columns. Resolving and compiling hand the warnings on as
they are. Over collections there are none.
-/
import DocumentFilter.Compile
import DocumentFilter.Proofs.Distinct
import DocumentFilter.Proofs.Fields
import DocumentFilter.Proofs.TableTyping

namespace DocumentFilter

/-- The column that a warning is about. -/
def Warning.column : Warning → String
  | .missingIndex _ column => column

/-- The paths that a filter names, depth first and from left to right. -/
def Document.paths (filter : Option Json) : List String := (fieldsOf filter).map (·.path)

/-! ## The warnings of a field -/

theorem TableSchema.warning_of_check {table : TableSchema} {c : Comparison} {warning : Option Warning}
    (h : (Schema.table table).check c = .ok warning) :
    warning = if table.isIndexed c.path then none else some (.missingIndex table.name c.path) := by
  obtain ⟨type, -, h⟩ := bind_eq_ok.mp h
  cases hvector : type.isVector with
  | true => simp [hvector, bind, Except.bind, throw, throwThe, MonadExceptOf.throw] at h
  | false =>
    simp only [hvector, Bool.false_eq_true, if_false] at h
    exact (pure_eq_ok.mp h).symm

theorem CollectionSchema.warning_of_check {schema : CollectionSchema} {c : Comparison} {warning : Option Warning}
    (h : (Schema.collection schema).check c = .ok warning) : warning = none := by
  obtain ⟨_, -, rfl⟩ := map_eq_ok.mp h
  rfl

namespace Document.Field.IsRead

variable {field : Field}

/-- A field over a table warns of its own column, once for each comparison, unless the column is indexed. -/
theorem warnings_table {table : TableSchema} (h : field.IsRead (.table table)) :
    ∃ n, (field.contents (.table table)).warnings = if table.isIndexed field.path then [] else
      List.replicate (n + 1) (.missingIndex table.name field.path) := by
  obtain ⟨cs, warnings, hcs, hwarnings, hc⟩ := h.condition
  have heach : ∀ warning ∈ warnings,
      warning = if table.isIndexed field.path then none else some (.missingIndex table.name field.path) := by
    intro warning hmem
    obtain ⟨c, hmem, hcheck⟩ := exists_left_of_forall₂ (mapM_eq_ok.mp hwarnings) warning hmem
    rw [TableSchema.warning_of_check hcheck, (Condition.written_of_comparisons hcs c hmem).2]
  obtain ⟨n, hn⟩ : ∃ n, warnings.length = n + 1 := by
    rw [← (mapM_eq_ok.mp hwarnings).length_eq]
    exact Nat.exists_eq_succ_of_ne_zero (mt List.length_eq_zero_iff.mp (Condition.ne_nil_of_comparisons hcs))
  refine ⟨n, ?_⟩
  rw [hc, List.eq_replicate_of_mem heach, hn]
  cases table.isIndexed field.path <;> simp

theorem warnings_collection {schema : CollectionSchema} (h : field.IsRead (.collection schema)) :
    (field.contents (.collection schema)).warnings = [] := by
  obtain ⟨cs, warnings, -, hwarnings, hc⟩ := h.condition
  rw [hc, List.filterMap_eq_nil_iff]
  intro warning hmem
  obtain ⟨c, -, hcheck⟩ := exists_left_of_forall₂ (mapM_eq_ok.mp hwarnings) warning hmem
  exact CollectionSchema.warning_of_check hcheck

end Document.Field.IsRead

/-! ## The warnings of a clause -/

open Document

theorem eraseDups_warnings {table : TableSchema} {fields : List Field}
    (h : ∀ field ∈ fields, field.IsRead (.table table)) :
    (fields.flatMap fun field => (field.contents (.table table)).warnings).eraseDups =
      ((fields.map (·.path)).eraseDups.filter (!table.isIndexed ·)).map (.missingIndex table.name) := by
  rw [← eraseDups_filter, ← eraseDups_map (by simp)]
  induction fields with
  | nil => rfl
  | cons field fields ih =>
    rw [List.forall_mem_cons] at h
    obtain ⟨n, hn⟩ := h.1.warnings_table
    rw [List.flatMap_cons, hn, List.map_cons]
    cases hindexed : table.isIndexed field.path with
    | true => rw [if_pos rfl, List.filter_cons_of_neg (by simp [hindexed]), List.nil_append, ih h.2]
    | false =>
      rw [if_neg Bool.false_ne_true, List.filter_cons_of_pos (by simp [hindexed]), List.map_cons,
        eraseDups_replicate_append, eraseDups_cons, eraseDups_cons, ih h.2]

/-- The warnings of a clause over a table are those of the columns without index that it compares on, each once, as the
filter first names them. -/
structure Clause.WarnsOfScans (table : TableSchema) (filter : Option Json) (clause : Clause) : Prop where
  nodup : clause.warnings.Nodup
  mem_iff : ∀ warning, warning ∈ clause.warnings ↔ ∃ column, warning = .missingIndex table.name column ∧
    (∃ c ∈ clause.expression.childrenFirst, c.path = column) ∧ column ∉ table.primaryKey ∧ column ∉ table.indexes
  ordered : clause.warnings.Pairwise fun a b => (paths filter).idxOf a.column < (paths filter).idxOf b.column

theorem parse_warnsOfScans {table : TableSchema} {limits : Limits} {filter : Option Json} {clause : Clause}
    (h : Clause.parse (.table table) limits filter = .ok clause) : clause.WarnsOfScans table filter := by
  have hfields := parse_ofFields h
  have hwarnings : clause.warnings =
      ((paths filter).eraseDups.filter (!table.isIndexed ·)).map (.missingIndex table.name) :=
    hfields.warnings.trans (eraseDups_warnings hfields.isRead)
  refine ⟨?_, fun warning => ?_, ?_⟩
  · rw [hwarnings]
    exact ((nodup_eraseDups _).filter _).map fun _ _ heq => (Warning.missingIndex.inj heq).2
  · have hpath (column : String) : (∃ c ∈ clause.expression.childrenFirst, c.path = column) ↔ column ∈ paths filter :=
      (parse_path_iff h).trans List.mem_map.symm
    have hunindexed (column : String) : (!table.isIndexed column) = true ↔
        column ∉ table.primaryKey ∧ column ∉ table.indexes := by simp [TableSchema.isIndexed]
    simp only [hwarnings, hpath, List.mem_map, List.mem_filter, List.mem_eraseDups, hunindexed]
    exact exists_congr fun column => by rw [and_comm, eq_comm (a := warning)]
  · rw [hwarnings, List.pairwise_map]
    exact (pairwise_idxOf_eraseDups _).filter _

theorem parse_no_warnings {schema : CollectionSchema} {limits : Limits} {filter : Option Json} {clause : Clause}
    (h : Clause.parse (.collection schema) limits filter = .ok clause) : clause.warnings = [] := by
  have hfields := parse_ofFields h
  have hnone : (fieldsOf filter).flatMap (fun field => (field.contents (.collection schema)).warnings) = [] :=
    List.flatMap_eq_nil_iff.mpr fun field hmem => (hfields.isRead field hmem).warnings_collection
  rw [hfields.warnings, hnone]
  rfl

/-! ## Handing on -/

theorem CollectionFilter.warnings_of_resolve {limits : Limits} {clause : Clause} {r : Resolved CollectionFilter}
    (h : resolve limits clause = .ok r) : r.warnings = clause.warnings := by
  obtain ⟨_, -, -, rfl⟩ := RuleTable.resolve_eq_ok.mp h
  rfl

theorem TableFilter.warnings_of_resolve {table : TableSchema} {limits : Limits} {clause : Clause}
    {r : Resolved TableFilter} (h : resolve table limits clause = .ok r) : r.warnings = clause.warnings := by
  obtain ⟨_, -, -, rfl⟩ := RuleTable.resolve_eq_ok.mp h
  rfl

section Parsed

variable {limits : Limits} {filter : Option Json} {clause : Clause}

theorem CollectionFilter.warnings_of_compile {schema : CollectionSchema} {r : Resolved CollectionFilter}
    (hparse : Clause.parse (.collection schema) limits filter = .ok clause) (h : compile schema limits filter = .ok r) :
    r.warnings = clause.warnings := by
  obtain ⟨_, hparse', hresolve⟩ := bind_eq_ok.mp h
  cases hparse.symm.trans hparse'
  exact warnings_of_resolve hresolve

theorem TableFilter.warnings_of_compile {table : TableSchema} {r : Resolved TableFilter}
    (hparse : Clause.parse (.table table) limits filter = .ok clause) (h : compile table limits filter = .ok r) :
    r.warnings = clause.warnings := by
  obtain ⟨_, hparse', hresolve⟩ := bind_eq_ok.mp h
  cases hparse.symm.trans hparse'
  exact warnings_of_resolve hresolve

end Parsed

/-- **Warnings are exact**, over tables and over collections, from the clause to the compiled filter. -/
theorem parse_warnings (limits : Limits) (filter : Option Json) (clause : Clause) :
    (∀ table, Clause.parse (.table table) limits filter = .ok clause →
        clause.WarnsOfScans table filter ∧
          (∀ table' limits' r, TableFilter.resolve table' limits' clause = .ok r → r.warnings = clause.warnings) ∧
          ∀ r, TableFilter.compile table limits filter = .ok r → r.warnings = clause.warnings) ∧
      ∀ schema, Clause.parse (.collection schema) limits filter = .ok clause →
        clause.warnings = [] ∧
          (∀ limits' r, CollectionFilter.resolve limits' clause = .ok r → r.warnings = []) ∧
          ∀ r, CollectionFilter.compile schema limits filter = .ok r → r.warnings = [] := by
  refine ⟨fun table h => ⟨parse_warnsOfScans h, ?_, ?_⟩, fun schema h => ⟨parse_no_warnings h, ?_, ?_⟩⟩
  · exact fun _ _ _ => TableFilter.warnings_of_resolve
  · exact fun _ => TableFilter.warnings_of_compile h
  · exact fun _ _ hr => (CollectionFilter.warnings_of_resolve hr).trans (parse_no_warnings h)
  · exact fun _ hr => (CollectionFilter.warnings_of_compile h hr).trans (parse_no_warnings h)

/-- A table with a key and an index. -/
def letters : TableSchema :=
  { name := "letters", columns := [⟨"id", .scalar .int⟩, ⟨"author", .scalar .text⟩, ⟨"title", .scalar .text⟩,
      ⟨"year", .scalar .int⟩], primaryKey := ["id"], indexes := ["author"] }

/-- A filter that first names the year, below a NOT, and the title twice. -/
def yearThenTitle : Json :=
  .object [("$not", .object [("year", .object [("$gte", .number (.int 1800)), ("$lt", .number (.int 1900))])]),
    ("author", .string "Ada"), ("title", .object [("$ne", .string "untitled")]),
    ("$or", .array [.object [("id", .number (.int 7))], .object [("title", .string "Notes")]])]

theorem parse_warnings_letters :
    (∃ clause, Clause.parse (.table letters) {} (some yearThenTitle) = .ok clause ∧
        clause.warnings = [.missingIndex "letters" "year", .missingIndex "letters" "title"] ∧
        clause.WarnsOfScans letters (some yearThenTitle) ∧
        ∃ r, TableFilter.resolve letters {} clause = .ok r ∧ r.warnings = clause.warnings) ∧
      ∃ clause, Clause.parse (.collection { name := "letters" }) {} (some yearThenTitle) = .ok clause ∧
        clause.warnings = [] := by
  have hwarnings : (Clause.parse (.table letters) {} (some yearThenTitle)).map (·.warnings) =
      .ok [.missingIndex "letters" "year", .missingIndex "letters" "title"] := by
    decide +kernel
  have hcount : (TableFilter.compile letters {} (some yearThenTitle)).map (·.tree.count) = .ok 6 := by decide +kernel
  have hparses : (Clause.parse (.collection { name := "letters" }) {} (some yearThenTitle)).map (·.validated) =
      .ok true := by
    decide +kernel
  obtain ⟨clause, hparse, hclause⟩ := map_eq_ok.mp hwarnings
  obtain ⟨r, hr, -⟩ := map_eq_ok.mp hcount
  obtain ⟨clause', hparse', -⟩ := map_eq_ok.mp hparses
  obtain ⟨_, hsame, hresolve⟩ := bind_eq_ok.mp hr
  cases hparse.symm.trans hsame
  obtain ⟨hexact, hhanded, -⟩ := (parse_warnings {} (some yearThenTitle) clause).1 letters hparse
  exact ⟨⟨clause, hparse, hclause, hexact, r, hresolve, hhanded _ _ r hresolve⟩,
    ⟨clause', hparse', ((parse_warnings {} (some yearThenTitle) clause').2 _ hparse').1⟩⟩

end DocumentFilter
