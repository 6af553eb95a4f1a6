/-
A double negation changes nothing but the shape of the tree.

The two NOTs cancel where NOT is removed, so no operand is negated, and the
ANDs between them stay: what is parsed is the clause of the object alone in an
AND, and that alone in another (`parse_doublyNegated`). Operands and identities
are checked by the comparisons alone, and the rule that decides keeps a node on
its own in an AND as one (`RuleTable.resolve_twiceAlone`), so a filter and its
double negation compile to such trees or are refused for the same reason.
-/
import DocumentFilter.Compile
import DocumentFilter.Proofs.RuleOrder

namespace DocumentFilter

variable {M F : Type}

/-! ## A node on its own in an AND -/

/-- The conjunction that holds nothing but the node. -/
def Expression.alone (e : Expression) : Expression := ⟨.and, [e], []⟩

/-- The conjunction that holds nothing but the node. -/
def CaptureTree.alone (t : CaptureTree M) : CaptureTree M := ⟨.and, [], [t]⟩

/-- The conjunction that holds nothing but the node. -/
def FilterTree.alone (t : FilterTree F) : FilterTree F := ⟨.and, [], [t]⟩

namespace Expression

@[simp]
theorem childrenFirst_alone (e : Expression) : e.alone.childrenFirst = e.childrenFirst := by
  simp [alone, childrenFirst, childrenFirstAll]

@[simp]
theorem attributed_alone (e : Expression) : e.alone.attributed = e.attributed := by
  simp [alone, attributed, attributedAll]

/-- The node of a double negation, as it is read. -/
def doublyNegated (e : Expression) : Expression := ⟨.not, [⟨.and, [⟨.not, [e], []⟩], []⟩], []⟩

@[simp]
theorem childrenFirst_doublyNegated (e : Expression) : e.doublyNegated.childrenFirst = e.childrenFirst := by
  simp [doublyNegated, childrenFirst, childrenFirstAll]

/-- Two NOTs cancel before they reach an operand; the AND between them stays. -/
theorem normalized_doublyNegated (e : Expression) : e.doublyNegated.normalized = e.normalized.alone := by
  simp [doublyNegated, normalized, negated, negatedAll, negatedNode, alone]

theorem normalized_alone (e : Expression) : e.alone.normalized = e.normalized.alone := rfl

theorem checkOperands_alone_doublyNegated (limits : Limits) (e : Expression) :
    e.doublyNegated.alone.checkOperands limits = e.checkOperands limits := by
  simp only [checkOperands, childrenFirst_alone, childrenFirst_doublyNegated]

theorem checkIdentity_alone (path : String) (e : Expression) : e.alone.checkIdentity path = e.checkIdentity path := by
  simp only [checkIdentity, attributed_alone]

end Expression

/-! ## Parsing -/

/-- The object that negates the negation of an object. -/
def Document.doublyNegated (entries : List (String × Json)) : Json :=
  .object [("$not", .object [("$not", .object entries)])]

/-- The same clause, of the expression alone in an AND, and that alone in another. -/
def Clause.twiceAlone (clause : Clause) : Clause := { clause with expression := clause.expression.alone.alone }

section Parse

variable {schema : Schema} {limits : Limits} {entries : List (String × Json)}

theorem Contents.ofEntries_single (key : String) (value : Json) :
    ofEntries schema [(key, value)] = ofEntry schema key value := by
  rw [ofEntries]
  cases ofEntry schema key value with
  | error err => rfl
  | ok c =>
    have hnil : c ++ ({} : Contents) = c := by
      show Contents.append c {} = c
      simp [Contents.append]
    exact congrArg Except.ok hnil

theorem Contents.ofEntries_doublyNegated (h : entries ≠ []) :
    ofEntries schema [("$not", .object [("$not", .object entries)])] =
      (ofEntries schema entries).map fun c => ofNode c.conjunction.doublyNegated c.warnings := by
  have hne : entries.isEmpty = false := by simpa using h
  simp only [ofEntries_single, ofEntry_negation, hne, List.isEmpty_cons, Bool.false_eq_true, if_false]
  cases ofEntries schema entries <;> rfl

theorem Contents.conjunction_ofNode (e : Expression) (warnings : List Warning) :
    (ofNode e warnings).conjunction = e.alone := rfl

/-- The identity rules look at comparisons and connectives of their nodes, which are the same. -/
theorem validate_alone_doublyNegated (e : Expression) (identityPath : Option String) (warnings : List Warning) :
    (Clause.ofExpression e.doublyNegated.alone identityPath warnings).validate =
      (Clause.ofExpression e identityPath warnings).validate.map Clause.twiceAlone := by
  simp only [Clause.ofExpression, Expression.normalized_alone, Expression.normalized_doublyNegated, Clause.validate,
    Expression.checkIdentity_alone]
  cases identityPath with
  | none => rfl
  | some path =>
    simp only [Bool.false_eq_true, if_false]
    cases e.normalized.checkIdentity path <;> rfl

/-- **The clause of a double negation** is that of the object, alone in two ANDs. -/
theorem parse_doublyNegated (h : entries ≠ []) : Clause.parse schema limits (some (Document.doublyNegated entries)) =
    (Clause.parse schema limits (some (.object entries))).map Clause.twiceAlone := by
  simp only [Clause.parse, Document.doublyNegated, Contents.ofEntries_doublyNegated h]
  cases Contents.ofEntries schema entries with
  | error err => rfl
  | ok c =>
    simp only [Except.map, Contents.conjunction_ofNode, bind, Except.bind,
      Expression.checkOperands_alone_doublyNegated]
    cases c.conjunction.checkOperands limits with
    | error err => rfl
    | ok _ => exact validate_alone_doublyNegated c.conjunction schema.identityPath? c.warnings.eraseDups

end Parse

/-! ## Resolving -/

/-- The same filters, of the tree alone in an AND, and that alone in another. -/
def Resolved.twiceAlone (r : Resolved F) : Resolved F := { r with tree := r.tree.alone.alone }

theorem FilterTree.build_alone (primitives : CaptureGroup M → Except FilterError (List F)) (t : CaptureTree M) :
    build primitives t.alone = (build primitives t).map FilterTree.alone := by
  simp only [CaptureTree.alone, build, buildAll]
  cases build primitives t <;> rfl

@[simp]
theorem FilterTree.count_alone (t : FilterTree F) : t.alone.count = t.count := by
  simp [alone, count, countAll]

theorem Resolved.ofTree_twiceAlone (limits : Limits) (clause : Clause) (tree : FilterTree F) :
    ofTree limits clause.twiceAlone tree.alone.alone = (ofTree limits clause tree).map twiceAlone := by
  simp only [ofTree, FilterTree.count_alone]
  split <;> rfl

theorem Matcher.conclude_map (singleUse : Bool) (f : CaptureTree M → CaptureTree M) (tree? : Option (CaptureTree M))
    (progress : MatchProgress M) :
    conclude singleUse (tree?.map f, progress) = (conclude singleUse (tree?, progress)).map f := by
  cases tree? with
  | none => rfl
  | some tree =>
    simp only [conclude, Option.map_some]
    generalize (if singleUse = true then progress.available.length else 0) = missing
    split <;> rfl

section Resolve

variable [DecidableEq M]

theorem Matcher.walk_alone (singleUse : Bool) (e : Expression) (progress : MatchProgress M) :
    walk singleUse e.alone progress =
      ((walk singleUse e progress).1.map CaptureTree.alone, (walk singleUse e progress).2) := by
  simp only [Expression.alone, walk, walkAll, Connective.junction?]
  obtain ⟨_ | tree, progress'⟩ := walk singleUse e progress <;> rfl

theorem Matcher.apply_greedy_alone (captures : List (Capture M)) (e : Expression) :
    apply ⟨.greedy, captures⟩ e.alone = (apply ⟨.greedy, captures⟩ e).map CaptureTree.alone := by
  simp only [apply, walk_alone]
  exact conclude_map false CaptureTree.alone _ _

/-- A table that is decided by a greedy rule builds, for a node alone in an AND, the tree of the node alone in one. -/
theorem RuleTable.apply_alone {table : RuleTable M F} {captures : List (Capture M)}
    {primitives : CaptureGroup M → Except FilterError (List F)}
    (hlast : table.lastOnly.first = ⟨⟨.greedy, captures⟩, FilterTree.build primitives⟩) {e : Expression}
    (h : table.DecidedByLast e) (h' : table.DecidedByLast e.alone) :
    table.apply e.alone = (table.apply e).map FilterTree.alone := by
  have honly : table.lastOnly.others = [] := rfl
  rw [h.last, h'.last]
  simp only [apply, hlast, honly, applyFrom, Matcher.apply_greedy_alone]
  cases Matcher.apply ⟨.greedy, captures⟩ e with
  | error failure => rfl
  | ok t => exact FilterTree.build_alone primitives t

/-- If a greedy rule decides whatever has the comparisons of the clause, then the clause alone in two ANDs resolves to
what the clause resolves to, alone in two ANDs. -/
theorem RuleTable.resolve_twiceAlone {table : RuleTable M F} {captures : List (Capture M)}
    {primitives : CaptureGroup M → Except FilterError (List F)}
    (hlast : table.lastOnly.first = ⟨⟨.greedy, captures⟩, FilterTree.build primitives⟩) {clause : Clause}
    (hdecided : ∀ e : Expression, e.operator = .and → e.childrenFirst = clause.expression.childrenFirst →
      table.DecidedByLast e) (hand : clause.expression.operator = .and) (limits : Limits) :
    table.apply clause.twiceAlone.expression >>= Resolved.ofTree limits clause.twiceAlone =
      (table.apply clause.expression >>= Resolved.ofTree limits clause).map Resolved.twiceAlone := by
  have hself := hdecided clause.expression hand rfl
  have honce := hdecided clause.expression.alone rfl (by simp)
  have htwice := hdecided clause.expression.alone.alone rfl (by simp)
  have happly : table.apply clause.twiceAlone.expression =
      (table.apply clause.expression).map fun tree => tree.alone.alone := by
    rw [Clause.twiceAlone, apply_alone hlast honce htwice, apply_alone hlast hself honce]
    cases table.apply clause.expression <;> rfl
  rw [happly]
  cases table.apply clause.expression with
  | error err => rfl
  | ok tree => exact Resolved.ofTree_twiceAlone limits clause tree

end Resolve

/-! ## Compiling -/

section Compile

variable {entries : List (String × Json)}

theorem CollectionFilter.compile_doublyNegated (h : entries ≠ []) (schema : CollectionSchema) (limits : Limits) :
    compile schema limits (some (Document.doublyNegated entries)) =
      (compile schema limits (some (.object entries))).map Resolved.twiceAlone := by
  simp only [compile, parse_doublyNegated h]
  cases hparse : Clause.parse (.collection schema) limits (some (.object entries)) with
  | error err => rfl
  | ok clause =>
    refine RuleTable.resolve_twiceAlone rfl (fun e he hsame => ?_) (parse_shape hparse).1 limits
    exact rules_decidedByLast he (hsame ▸ operations_ne_nil_of_parse hparse)

theorem TableFilter.compile_doublyNegated (h : entries ≠ []) (table : TableSchema) (limits : Limits) :
    compile table limits (some (Document.doublyNegated entries)) =
      (compile table limits (some (.object entries))).map Resolved.twiceAlone := by
  simp only [compile, parse_doublyNegated h]
  cases hparse : Clause.parse (.table table) limits (some (.object entries)) with
  | error err => rfl
  | ok clause =>
    exact RuleTable.resolve_twiceAlone rfl (fun e he _ => rules_decidedByLast table he) (parse_shape hparse).1 limits

/-- **A double negation is transparent**: the filter that negates the negation of an object parses and compiles to what
the object does, alone in two ANDs, or is refused for the same reason. -/
theorem compile_notNot (h : entries ≠ []) (limits : Limits) :
    (∀ schema, Clause.parse schema limits (some (Document.doublyNegated entries)) =
        (Clause.parse schema limits (some (.object entries))).map Clause.twiceAlone) ∧
      (∀ schema, CollectionFilter.compile schema limits (some (Document.doublyNegated entries)) =
        (CollectionFilter.compile schema limits (some (.object entries))).map Resolved.twiceAlone) ∧
      ∀ table, TableFilter.compile table limits (some (Document.doublyNegated entries)) =
        (TableFilter.compile table limits (some (.object entries))).map Resolved.twiceAlone :=
  ⟨fun _ => parse_doublyNegated h, fun schema => CollectionFilter.compile_doublyNegated h schema limits,
    fun table => TableFilter.compile_doublyNegated h table limits⟩

/-- Users without tags. -/
def untagged : List (String × Json) := [("tags", .object [("$size", .number (.int 0))])]

/-- The length 0 is no longer an integer once it has been negated; behind two negations it is what it was. -/
theorem compile_notNot_untagged : untagged ≠ [] ∧
    (∃ r, CollectionFilter.compile { name := "users" } {} (some (.object untagged)) = .ok r ∧
      r.tree.own = [.size "tags" 0 false] ∧
      CollectionFilter.compile { name := "users" } {} (some (Document.doublyNegated untagged)) =
        .ok ⟨r.tree.alone.alone, r.warnings⟩) ∧
    TableFilter.compile { name := "users", columns := [] } {} (some (Document.doublyNegated untagged)) =
      .error (.unknownColumn "users" "tags") := by
  have hne : untagged ≠ [] := List.cons_ne_nil _ _
  obtain ⟨-, hcollection, htable⟩ := compile_notNot hne {}
  have hown : (CollectionFilter.compile { name := "users" } {} (some (.object untagged))).map (·.tree.own) =
      .ok [.size "tags" 0 false] := by decide +kernel
  obtain ⟨r, hr, hown⟩ := map_eq_ok.mp hown
  have hrefused : TableFilter.compile { name := "users", columns := [] } {} (some (.object untagged)) =
      .error (.unknownColumn "users" "tags") := rfl
  refine ⟨hne, ⟨r, hr, hown, ?_⟩, ?_⟩
  · rw [hcollection, hr]
    rfl
  · rw [htable, hrefused]
    rfl

end Compile

end DocumentFilter
