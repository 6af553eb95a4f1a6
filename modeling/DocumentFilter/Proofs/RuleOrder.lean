/-
The order of rules decides nothing but speed. Whatever filter a special rule
takes, the last rule of its table would take it too and build the same tree or
fail by the same error (`Yields`), so the table answers as its last rule alone
does, and in any other order it resolves the same filters to the same trees.

Over collections this is because the captures of the last rule that come first
are those on the identity: wherever the single capture of a strict rule
accepts, they choose its marker.
-/
import DocumentFilter.Proofs.CollectionPrimitives
import DocumentFilter.Proofs.Preference
import DocumentFilter.Proofs.TablePrimitives

namespace DocumentFilter

/-! ## Rule tables -/

namespace RuleTable

variable {M F : Type} [DecidableEq M]

/-- The table of the last rule alone. -/
def lastOnly (table : RuleTable M F) : RuleTable M F :=
  ⟨table.name, table.rules.getLast (List.cons_ne_nil _ _), []⟩

/-- If the first rule matches the filter then so does the second, with the same outcome. -/
def Yields (e : Expression) (rule other : Rule M F) : Prop :=
  ∀ t, rule.matcher.apply e = .ok t → ∃ t', other.matcher.apply e = .ok t' ∧ rule.build t = other.build t'

/-- For the filter the table is as good as its last rule alone, and the order of its rules is of no account: any
order gives the same trees, and one that leaves the last rule last the same errors too. -/
structure DecidedByLast (table : RuleTable M F) (e : Expression) : Prop where
  last : table.apply e = table.lastOnly.apply e
  reordered : ∀ other : RuleTable M F, other.rules.Perm table.rules →
    (∀ tree, other.apply e = .ok tree ↔ table.apply e = .ok tree) ∧
      (other.lastOnly.first = table.lastOnly.first → other.apply e = table.apply e)

omit [DecidableEq M] in
theorem getLast?_rules (table : RuleTable M F) : table.rules.getLast? = some table.lastOnly.first :=
  List.getLast?_eq_some_getLast _

/-- A table with a rule to which all others yield has the outcome of that rule, if it matches; else no rule does. -/
theorem apply_of_yields {table : RuleTable M F} {e : Expression} {general : Rule M F}
    (hmem : general ∈ table.rules) (h : ∀ rule ∈ table.rules, Yields e rule general) :
    (∃ t, general.matcher.apply e = .ok t ∧ table.apply e = general.build t) ∨
      (∃ failure, general.matcher.apply e = .error failure) ∧ ∃ failure,
        table.lastOnly.first.matcher.apply e = .error failure ∧
          table.apply e = .error (.unresolvable (.unmatched failure)) := by
  rcases table.apply_cases e with ⟨rule, hrule, t, hmatch, happly⟩ | ⟨hall, rule, failure, hlast, hfailure, happly⟩
  · obtain ⟨t', hmatch', hbuild⟩ := h rule hrule t hmatch
    exact .inl ⟨t', hmatch', happly.trans hbuild⟩
  · rw [getLast?_rules, Option.some.injEq] at hlast
    rw [← hlast] at hfailure
    exact .inr ⟨hall general hmem, failure, hfailure, happly⟩

/-- Two tables that have the rule to which all yield give the same trees, and with the same last rule the same
errors. -/
theorem agree_of_yields {table other : RuleTable M F} {e : Expression} {general : Rule M F}
    (hmem : general ∈ table.rules) (h : ∀ rule ∈ table.rules, Yields e rule general)
    (hmem' : general ∈ other.rules) (h' : ∀ rule ∈ other.rules, Yields e rule general) :
    (∀ tree, other.apply e = .ok tree ↔ table.apply e = .ok tree) ∧
      (other.lastOnly.first = table.lastOnly.first → other.apply e = table.apply e) := by
  rcases apply_of_yields hmem h with ⟨t, hmatch, happly⟩ | ⟨⟨_, hnone⟩, failure, hfailure, happly⟩ <;>
    rcases apply_of_yields hmem' h' with
      ⟨t', hmatch', happly'⟩ | ⟨⟨_, hnone'⟩, failure', hfailure', happly'⟩
  · cases hmatch.symm.trans hmatch'
    rw [happly, happly']
    exact ⟨fun _ => .rfl, fun _ => rfl⟩
  · cases hmatch.symm.trans hnone'
  · cases hmatch'.symm.trans hnone
  · rw [happly, happly']
    refine ⟨fun tree => by simp, fun hsame => ?_⟩
    rw [hsame] at hfailure'
    rw [Except.error.inj (hfailure.symm.trans hfailure')]

theorem decidedByLast {table : RuleTable M F} {e : Expression}
    (h : ∀ rule ∈ table.rules, Yields e rule table.lastOnly.first) : table.DecidedByLast e := by
  have hlast : table.lastOnly.first ∈ table.rules := List.getLast_mem _
  have honly : ∀ rule ∈ table.lastOnly.rules, Yields e rule table.lastOnly.first := by
    intro rule hrule
    rw [List.mem_singleton.mp hrule]
    exact h _ hlast
  refine ⟨((agree_of_yields hlast h List.mem_cons_self honly).2 rfl).symm, fun other hperm => ?_⟩
  exact agree_of_yields hlast h (hperm.mem_iff.mpr hlast) fun rule hrule => h rule (hperm.mem_iff.mp hrule)

end RuleTable

/-! ## Collections -/

namespace CollectionFilter

/-- Equalities with ids on the identity go to the first capture. -/
theorem markerOf?_id {c : Comparison} (hpath : c.path = CollectionSchema.identityPath)
    (hops : ∀ op ∈ c.operations, op.operator ∈ equality ∧ op.operand.kind = .documentId) :
    Matcher.markerOf? captures c = some .id := by
  have haccepts : Capture.accepts ⟨CollectionMarker.id, CollectionSchema.identityPath, equality, .documentId⟩ c := by
    simpa [Capture.accepts, hpath] using hops
  simp [Matcher.markerOf?, captures, haccepts]

/-- Membership in lists on the identity goes to the second capture. -/
theorem markerOf?_idIn {c : Comparison} (hpath : c.path = CollectionSchema.identityPath) (hne : c.operations ≠ [])
    (hops : ∀ op ∈ c.operations, op.operator ∈ membership ∧ op.operand.kind = .array) :
    Matcher.markerOf? captures c = some .idIn := by
  have hid : Capture.accepts ⟨CollectionMarker.id, CollectionSchema.identityPath, equality, .documentId⟩ c = false := by
    obtain ⟨op, others, hcons⟩ := List.exists_cons_of_ne_nil hne
    have hkind := (hops op (by simp [hcons])).2
    simp [Capture.accepts, hcons, hkind]
  have haccepts : Capture.accepts ⟨CollectionMarker.idIn, CollectionSchema.identityPath, membership, .array⟩ c := by
    simpa [Capture.accepts, hpath] using hops
  simp [Matcher.markerOf?, captures, hid, haccepts]

/-- A capture on the identity accepts nothing else, and only operations that it is for. -/
theorem accepts_identity {m : CollectionMarker} {operators : List Operator} {kind : Kind} {c : Comparison}
    (h : Capture.accepts ⟨m, CollectionSchema.identityPath, operators, kind⟩ c = true) :
    c.path = CollectionSchema.identityPath ∧ ∀ op ∈ c.operations, op.operator ∈ operators ∧ op.operand.kind = kind := by
  simp only [Capture.accepts, Bool.and_eq_true, Bool.or_eq_true, beq_iff_eq, identityPath_ne_wildcard, false_or,
    List.all_eq_true, List.contains_iff_mem] at h
  exact ⟨h.1.symm, h.2⟩

/-- What a rule takes the last one takes with the same captures, if no comparison is without operation. -/
theorem general_of_rule {rule : Rule CollectionMarker CollectionFilter} (hrule : rule ∈ rules.rules) {e : Expression}
    (he : e.operator = .and) (hops : ∀ c ∈ e.childrenFirst, c.operations ≠ []) {t : CaptureTree CollectionMarker}
    (h : rule.matcher.apply e = .ok t) : generalRule.matcher.apply e = .ok t := by
  simp only [rules, RuleTable.rules, List.mem_cons, List.not_mem_nil, or_false] at hrule
  rcases hrule with rfl | rfl | rfl | rfl
  · exact Matcher.apply_greedy_of_empty he h
  · refine Matcher.apply_greedy_of_strict (fun c hc capture hcapture haccepts => ?_) h
    rw [List.mem_singleton.mp hcapture] at haccepts ⊢
    obtain ⟨hpath, hops⟩ := accepts_identity haccepts
    refine markerOf?_id hpath fun op hop => ?_
    obtain ⟨heq, hkind⟩ := hops op hop
    exact ⟨by simp [equality, List.mem_singleton.mp heq], hkind⟩
  · refine Matcher.apply_greedy_of_strict (fun c hc capture hcapture haccepts => ?_) h
    rw [List.mem_singleton.mp hcapture] at haccepts ⊢
    obtain ⟨hpath, hops'⟩ := accepts_identity haccepts
    refine markerOf?_idIn hpath (hops c hc) fun op hop => ?_
    obtain ⟨hisIn, hkind⟩ := hops' op hop
    exact ⟨by simp [CollectionFilter.membership, List.mem_singleton.mp hisIn], hkind⟩
  · exact h

theorem lastOnly_rules : rules.lastOnly = ⟨rules.name, generalRule, []⟩ := rfl

theorem rules_decidedByLast {e : Expression} (he : e.operator = .and)
    (hops : ∀ c ∈ e.childrenFirst, c.operations ≠ []) : rules.DecidedByLast e := by
  refine RuleTable.decidedByLast fun rule hrule t h => ⟨t, general_of_rule hrule he hops h, ?_⟩
  exact build_eq_of_rules rule hrule e t h

end CollectionFilter

/-! ## Tables -/

theorem TableFilter.rules_decidedByLast (table : TableSchema) {e : Expression} (he : e.operator = .and) :
    (rules table).DecidedByLast e := by
  refine RuleTable.decidedByLast fun rule hrule t h => ?_
  have hbuild := build_eq_of_rules table rule hrule e t h
  simp only [rules, RuleTable.rules, List.mem_cons, List.not_mem_nil, or_false] at hrule
  rcases hrule with rfl | rfl
  · exact ⟨t, Matcher.apply_greedy_of_empty he h, hbuild⟩
  · exact ⟨t, h, hbuild⟩

/-! ## Clauses -/

/-- **Special rules agree with the general one** on every clause, whatever it was parsed for: the rules of
collections and those of tables answer as the last of them alone. -/
theorem apply_decidedByLast {clause : Clause}
    (h : clause = .empty ∨ ∃ schema limits filter, Clause.parse schema limits filter = .ok clause) :
    CollectionFilter.rules.DecidedByLast clause.expression ∧
      ∀ table, (TableFilter.rules table).DecidedByLast clause.expression := by
  have hclause : clause.expression.operator = .and ∧ ∀ c ∈ clause.expression.childrenFirst, c.operations ≠ [] := by
    rcases h with rfl | ⟨schema, limits, filter, h⟩
    · exact ⟨rfl, fun c hc => by cases hc⟩
    · exact ⟨(parse_shape h).1, operations_ne_nil_of_parse h⟩
  exact ⟨CollectionFilter.rules_decidedByLast hclause.1 hclause.2,
    fun table => TableFilter.rules_decidedByLast table hclause.1⟩

/-- A filter with a list of identities inside two junctions. -/
def nestedIdentities : Json :=
  .object [("$and", .array [.object [("$or", .array [.object [("$and", .array [.object [("_id",
    .object [("$in", .array [.string "a", .number (.int 1)])])]])]])]])]

/-- The clause of `nestedIdentities`. -/
def nestedIdentitiesClause : Clause :=
  ⟨⟨.and, [⟨.and, [⟨.and, [⟨.or, [⟨.and, [⟨.and, [], [.single "_id" .isIn
    (.array [.documentId (.string "a"), .documentId (.number (.int 1))])]⟩], []⟩], []⟩], []⟩], []⟩], []⟩,
    some "_id", [], true⟩

theorem apply_decidedByLast_nestedIdentities :
    Clause.parse (.collection { name := "users" }) {} (some nestedIdentities) = .ok nestedIdentitiesClause ∧
      CollectionFilter.rules.DecidedByLast nestedIdentitiesClause.expression ∧
      ∀ table, (TableFilter.rules table).DecidedByLast nestedIdentitiesClause.expression :=
  have hparse : Clause.parse (.collection { name := "users" }) {} (some nestedIdentities) =
      .ok nestedIdentitiesClause := by decide +kernel
  ⟨hparse, apply_decidedByLast (.inr ⟨_, _, _, hparse⟩)⟩

end DocumentFilter
