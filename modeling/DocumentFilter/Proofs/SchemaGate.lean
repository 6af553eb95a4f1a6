/-
A collection schema accepts or refuses a filter; it does not change what the
filter compiles to.

A schema is asked whether a path is indexed and whether a reserved field is
switched on, and only to refuse what is not. So whatever one schema reads, one
that allows more reads as well, with the same contents (`ofEntries_within`).
Any two schemas allow no more than the one that allows everything, hence
filters that compile over both compile to the same, and that whatever the
limits, since these only gate, too.
-/
import DocumentFilter.Proofs.Gating

namespace DocumentFilter

/-! ## Schemas -/

namespace CollectionSchema

/-- What the first schema has indexed or switched on, the second has, too. -/
structure Within (schema schema' : CollectionSchema) : Prop where
  indexed : ∀ path, schema.indexing.isIndexed path = true → schema'.indexing.isIndexed path = true
  enabled : ∀ field, schema.isEnabled field = true → schema'.isEnabled field = true

/-- The schema that has every path indexed and every reserved field switched on. -/
def unrestricted : CollectionSchema := { name := "", vectorEnabled := true, lexicalEnabled := true }

theorem within_unrestricted (schema : CollectionSchema) : schema.Within unrestricted where
  indexed := fun _ _ => rfl
  enabled := fun field _ => by cases field <;> rfl

variable {schema schema' : CollectionSchema}

theorem Within.check (h : schema.Within schema') {c : Comparison} (hc : schema.check c = .ok ()) :
    schema'.check c = .ok () := by
  cases hreserved : ReservedField.ofKey? c.path with
  | some field =>
    by_cases henabled : schema.isEnabled field = true
    · have henabled' := h.enabled field henabled
      simp only [CollectionSchema.check, hreserved, henabled, henabled'] at hc ⊢
      exact hc
    · simp [CollectionSchema.check, hreserved, henabled] at hc
  | none =>
    by_cases hindexed : schema.indexing.isIndexed c.path = true
    · simp [CollectionSchema.check, hreserved, h.indexed c.path hindexed]
    · simp only [CollectionSchema.check, hreserved, if_neg hindexed] at hc
      split at hc <;> cases hc

end CollectionSchema

/-! ## Reading -/

namespace Contents

variable {schema schema' : CollectionSchema}

/-- A field is read alike: only the checks of its comparisons look at the collection. -/
theorem ofField_within (h : schema.Within schema') {path : String} {value : Json} {c : Contents}
    (hc : ofField (.collection schema) path value = .ok c) : ofField (.collection schema') path value = .ok c := by
  obtain ⟨cs, warnings, hpath, hcs, hchecked, rfl⟩ := ofField_eq_ok.mp hc
  refine ofField_eq_ok.mpr ⟨cs, warnings, hpath, hcs, mapM_eq_ok.mpr ((mapM_eq_ok.mp hchecked).imp ?_), rfl⟩
  intro comparison warning hwarning
  obtain ⟨_, hcheck, rfl⟩ := map_eq_ok.mp hwarning
  exact map_eq_ok.mpr ⟨(), h.check hcheck, rfl⟩

/-- Each way of reading is open to a schema that allows more. The statements are about whatever is read, so all that the
induction supplies is that every part was read. -/
theorem keptByReading_within (h : schema.Within schema') : KeptByReading (.collection schema)
    (fun key value _ => ∀ c, ofEntry (.collection schema) key value = .ok c →
      ofEntry (.collection schema') key value = .ok c)
    (fun entries _ => ∀ c, ofEntries (.collection schema) entries = .ok c →
      ofEntries (.collection schema') entries = .ok c)
    (fun j items _ => ∀ c, ofElements (.collection schema) j items = .ok c →
      ofElements (.collection schema') j items = .ok c) where
  field := by
    intro key value _ hkey _ c hc
    rw [ofEntry_of_isFieldKey hkey] at hc ⊢
    have hreserved : (Schema.collection schema').isReserved key = (Schema.collection schema).isReserved key := rfl
    rw [hreserved]
    split at hc
    · cases hc
    · rename_i hknown
      rw [if_neg hknown]
      exact ofField_within h hc
  junction := by
    intro j items _ _ hitems c hc
    obtain ⟨hne, d, hd, rfl⟩ := ofEntry_junction_eq_ok.mp hc
    exact ofEntry_junction_eq_ok.mpr ⟨hne, d, hitems d hd, rfl⟩
  negation := by
    intro entries _ _ hentries c hc
    obtain ⟨hne, d, hd, rfl⟩ := ofEntry_negation_eq_ok.mp hc
    exact ofEntry_negation_eq_ok.mpr ⟨hne, d, hentries d hd, rfl⟩
  noEntries := fun _ hc => hc
  entries := by
    intro key value rest _ _ hfirst hothers c hc
    simp only [Contents.ofEntries, bind_eq_ok, pure_eq_ok] at hc ⊢
    obtain ⟨first, hread, others, hread', rfl⟩ := hc
    exact ⟨first, hfirst first hread, others, hothers others hread', rfl⟩
  noElements := fun _ hc => hc
  elements := by
    intro j entries items _ _ _ hfirst hothers c hc
    obtain ⟨hne, first, others, hread, hread', rfl⟩ := ofElements_cons_object.mp hc
    exact ofElements_cons_object.mpr ⟨hne, first, others, hfirst first hread, hothers others hread', rfl⟩

/-- **A schema that allows more reads the same contents.** -/
theorem ofEntries_within (h : schema.Within schema') {entries : List (String × Json)} {c : Contents}
    (hc : ofEntries (.collection schema) entries = .ok c) : ofEntries (.collection schema') entries = .ok c :=
  (keptByReading_within h).ofEntries entries hc c hc

end Contents

/-! ## Compiling -/

theorem parse_within {schema schema' : CollectionSchema} (h : schema.Within schema') {limits : Limits}
    {filter : Option Json} {clause : Clause} (hparse : Clause.parse (.collection schema) limits filter = .ok clause) :
    Clause.parse (.collection schema') limits filter = .ok clause := by
  unfold Clause.parse at hparse ⊢
  split at hparse
  · exact hparse
  · exact hparse
  · obtain ⟨contents, hread, hrest⟩ := bind_eq_ok.mp hparse
    exact bind_eq_ok.mpr ⟨contents, Contents.ofEntries_within h hread, hrest⟩
  · cases hparse

/-- Outcomes under any limits that are both filters are one. -/
theorem Gated.eq_of_ok {F : Type} {limits : Limits} {filter : Option Json} {r r' : Resolved F}
    {outcome : Except FilterError (Resolved F)} (h : Gated limits filter r outcome) (hr' : outcome = .ok r') :
    r = r' := by
  by_cases hwithin : Document.ListsWithin limits filter
  · by_cases hfew : r.tree.filters.length ≤ limits.maxFilters
    · exact Except.ok.inj ((h.within hwithin hfew).symm.trans hr')
    · cases (h.counted hwithin (Nat.not_le.mp hfew)).symm.trans hr'
  · obtain ⟨op, items, -, -, herror⟩ := h.listed hwithin
    cases herror.symm.trans hr'

namespace CollectionFilter

theorem compile_within {schema schema' : CollectionSchema} (h : schema.Within schema') {limits : Limits}
    {filter : Option Json} {r : Resolved CollectionFilter} (hr : compile schema limits filter = .ok r) :
    compile schema' limits filter = .ok r := by
  obtain ⟨clause, hparse, hresolve⟩ := bind_eq_ok.mp hr
  exact bind_eq_ok.mpr ⟨clause, parse_within h hparse, hresolve⟩

/-- **A schema only gates**: a filter that compiles over two collections compiles to the same over both, whatever the
limits, and a filter that compiles over one collection compiles over every other that allows what it allows. -/
theorem compile_schemaOnlyGates (filter : Option Json) :
    (∀ schema schema' limits limits' r r', compile schema limits filter = .ok r →
        compile schema' limits' filter = .ok r' → r = r') ∧
      ∀ schema schema' : CollectionSchema, schema.Within schema' →
        ∀ limits r, compile schema limits filter = .ok r → compile schema' limits filter = .ok r := by
  refine ⟨fun schema schema' limits limits' r r' hr hr' => ?_, fun schema schema' h limits r => compile_within h⟩
  have hopen := compile_within schema.within_unrestricted hr
  have hopen' := compile_within schema'.within_unrestricted hr'
  have hgated : Gated limits' filter r (compile .unrestricted limits' filter) := gated_of_parse (fun _ _ => rfl) hopen
  exact hgated.eq_of_ok hopen'

/-- Articles, of which the identity and the tags are indexed and lexical search is on. -/
def articles : CollectionSchema :=
  { name := "articles", indexing := { allow := some ["_id", "tags"] }, lexicalEnabled := true }

/-- Drafts, with their titles indexed and vectors on as well. -/
def drafts : CollectionSchema :=
  { name := "drafts", indexing := { allow := some ["_id", "tags", "title"] }, vectorEnabled := true,
    lexicalEnabled := true }

/-- A filter for what has lexical text and tags and is not the document `a`. -/
def taggedEntries : List (String × Json) :=
  [("$lexical", .object [("$exists", .bool true)]),
    ("$not", .object [("$or", .array [.object [("_id", .object [("$in", .array [.string "a"])])],
      .object [("tags", .object [("$size", .number (.int 0))])]])])]

theorem articles_within_drafts : articles.Within drafts where
  indexed := by
    intro path h
    simp only [articles, drafts, Indexing.isIndexed, List.any_cons, List.any_nil, Bool.or_false] at h ⊢
    rw [← Bool.or_assoc, h, Bool.true_or]
  enabled := fun field _ => by cases field <;> rfl

theorem compile_schemaOnlyGates_articles : articles.Within drafts ∧ ∃ r,
    compile articles { maxInValues := 1 } (some (.object taggedEntries)) = .ok r ∧
      r.tree.filters.length = 3 ∧
      compile drafts { maxInValues := 1 } (some (.object taggedEntries)) = .ok r ∧
      compile { name := "notes", lexicalEnabled := true } { maxFilters := 3 } (some (.object taggedEntries)) = .ok r ∧
      compile { name := "notes" } {} (some (.object taggedEntries)) =
        .error (.invalidExpression (.fieldDisabled "$lexical" "notes")) := by
  have hlength : (compile articles { maxInValues := 1 } (some (.object taggedEntries))).map (·.tree.filters.length) =
      .ok 3 := by decide +kernel
  have hlength' : (compile { name := "notes", lexicalEnabled := true } { maxFilters := 3 }
      (some (.object taggedEntries))).map (·.tree.filters.length) = .ok 3 := by decide +kernel
  obtain ⟨r, hr, hlength⟩ := map_eq_ok.mp hlength
  obtain ⟨r', hr', -⟩ := map_eq_ok.mp hlength'
  obtain ⟨hsame, hmore⟩ := compile_schemaOnlyGates (some (.object taggedEntries))
  obtain rfl := hsame _ _ _ _ r r' hr hr'
  exact ⟨articles_within_drafts, r, hr, hlength, hmore _ _ articles_within_drafts _ r hr, hr', rfl⟩

end CollectionFilter

end DocumentFilter
