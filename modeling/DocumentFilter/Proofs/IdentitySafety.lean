/-
Identity primitives of resolved filters.

A filter over a collection that compiles asks for a document's identity at
most once, in one of the two primitives made for it and never directly below
an OR, whatever junctions and negations the condition was written in; and it
does so exactly if the document has a condition on the identity
(`compile_identitySafe`).

The rules come to what the last of them alone would build, and that marks each
comparison as the first capture says. So at every node there are as many
identity primitives as comparisons on the identity path, and the rule that the
clause obeys passes to the tree.
-/
import DocumentFilter.Compile
import DocumentFilter.Proofs.Identity
import DocumentFilter.Proofs.Occurrence
import DocumentFilter.Proofs.RuleOrder

namespace DocumentFilter

/-! ## Operations on the identity -/

/-- The operation compares with an id, or looks for the identity in a list. -/
def Operation.OnIdentity (op : Operation) : Prop :=
  (op.operator ∈ CollectionFilter.equality ∧ op.operand.kind = .documentId) ∨
    (op.operator ∈ CollectionFilter.membership ∧ op.operand.kind = .array)

theorem Operation.OnIdentity.negated {op : Operation} (h : op.OnIdentity) : op.negated.OnIdentity := by
  unfold OnIdentity at h ⊢
  rw [kind_negated, operator_negated]
  refine h.imp (And.imp_left fun hop => ?_) (And.imp_left fun hop => ?_)
  · simp only [CollectionFilter.equality, List.mem_cons, List.not_mem_nil, or_false] at hop ⊢
    rcases hop with hop | hop <;> simp [hop, Operator.negated]
  · simp only [CollectionFilter.membership, List.mem_cons, List.not_mem_nil, or_false] at hop ⊢
    rcases hop with hop | hop <;> simp [hop, Operator.negated]

theorem Operator.isEqualityOrMembership_negated (op : Operator) :
    op.negated.isEqualityOrMembership = op.isEqualityOrMembership := by
  cases op <;> rfl

section Clause

variable {schema : CollectionSchema} {limits : Limits}

theorem onIdentity_of_written {op : Operation} {component : Option Component}
    (h : Condition.Written (.collection schema) ⟨CollectionSchema.identityPath, [op], component⟩)
    (hcheck : op.check limits = .ok ()) (htest : op.operator.isEqualityOrMembership = true) : op.OnIdentity := by
  have hadmissible := Operation.admissible_of_check hcheck
  cases h with
  | element hkind => cases hkind
  | @whole _ operator _ literal _ hoperand =>
    cases operator with
    | eq | ne =>
      obtain ⟨id, rfl⟩ := Condition.isId_of_idOperand hoperand
      exact .inl ⟨by simp [CollectionFilter.equality], rfl⟩
    | isIn | notIn =>
      obtain ⟨values, rfl⟩ := hadmissible.list rfl
      exact .inr ⟨by simp [CollectionFilter.membership], rfl⟩
    | _ => cases htest

/-- What a clause asks of the identity by equality or membership is asked of an id or a list. -/
theorem onIdentity_of_stems {c : Comparison} (h : Stems (.collection schema) limits c)
    (hpath : c.path = CollectionSchema.identityPath)
    (htests : ∀ op ∈ c.operations, op.operator.isEqualityOrMembership = true) : ∀ op ∈ c.operations, op.OnIdentity := by
  cases h with
  | @kept path op component haccepted hcheck =>
    obtain rfl : path = CollectionSchema.identityPath := hpath
    simp only [List.forall_mem_singleton] at htests ⊢
    exact onIdentity_of_written haccepted.written hcheck htests
  | @negated path op component haccepted hcheck =>
    obtain rfl : path = CollectionSchema.identityPath := hpath
    simp only [List.forall_mem_singleton, Operation.operator_negated,
      Operator.isEqualityOrMembership_negated] at htests ⊢
    exact (onIdentity_of_written haccepted.written hcheck htests).negated

/-- A clause over a collection obeys the rule on the identity. -/
theorem identityRule_of_parse {filter : Option Json} {clause : Clause}
    (h : Clause.parse (.collection schema) limits filter = .ok clause) :
    clause.expression.IdentityRule CollectionSchema.identityPath := by
  rcases parse_cases h with ⟨-, rfl⟩ | ⟨entries, contents, -, hparsed⟩
  · exact Expression.checkIdentity_eq_ok.mp rfl
  · rw [hparsed.clause]
    exact Expression.checkIdentity_eq_ok.mp (hparsed.identity _ rfl)

end Clause

namespace CollectionFilter

/-! ## Primitives and markers -/

/-- The primitive is one of those on the identity. -/
def isIdentity (p : CollectionFilter) : Bool := p matches .id .. | .idIn ..

/-- The marker is one of those for the identity. -/
def marksIdentity (m : CollectionMarker) : Bool := m matches .id | .idIn

/-- The primitives on the identity name no path, and come from the markers for it. -/
theorem path?_of_translate {m : CollectionMarker} {a : Atom} {p : CollectionFilter} (h : translate m a = .ok p) :
    p.isIdentity = marksIdentity m ∧ p.path? = if marksIdentity m then none else some a.path := by
  obtain ⟨path, component, operator, operand⟩ := a
  -- What does not fit its marker is an error; in all other cases there is one primitive to look at.
  cases m <;> cases operand <;> simp only [translate, ofOperation, reduceCtorEq] at h
  case idIn.array =>
    simp only [bind_eq_ok, pure_eq_ok] at h
    obtain ⟨test, -, ids, -, rfl⟩ := h
    exact ⟨rfl, rfl⟩
  case presence.boolean | array.array =>
    cases h
    exact ⟨rfl, rfl⟩
  case size.number =>
    unfold ofCount at h
    split at h
    · split at h <;> cases h
      exact ⟨rfl, rfl⟩
    · cases h
  all_goals
    obtain ⟨test, -, rfl⟩ := map_eq_ok.mp h
    exact ⟨rfl, rfl⟩

/-- The captures for the identity accept comparisons on it, and nothing else. -/
theorem path_of_marksIdentity {c : Comparison} {m : CollectionMarker} (h : Matcher.markerOf? captures c = some m)
    (hm : marksIdentity m = true) : c.path = CollectionSchema.identityPath := by
  obtain ⟨capture, hcapture, rfl, haccepts⟩ := Matcher.exists_capture_of_markerOf? h
  simp only [captures, List.mem_cons, List.not_mem_nil, or_false] at hcapture
  rcases hcapture with rfl | rfl | hother
  · exact (accepts_identity haccepts).1
  · exact (accepts_identity haccepts).1
  · rcases hother with rfl | rfl | rfl | rfl | rfl | rfl | rfl | rfl | rfl | rfl | rfl <;> cases hm

/-- A comparison on the identity with an id or a list goes to one of the captures for it. -/
theorem exists_marksIdentity {c : Comparison} (hpath : c.path = CollectionSchema.identityPath)
    (hsingle : ∃ op, c.operations = [op]) (hops : ∀ op ∈ c.operations, op.OnIdentity) :
    ∃ m, Matcher.markerOf? captures c = some m ∧ marksIdentity m = true := by
  obtain ⟨op, hop⟩ := hsingle
  have hidentity : op.OnIdentity := hops op (by simp [hop])
  rcases hidentity with hid | hlist
  · exact ⟨.id, markerOf?_id hpath (by simpa [hop] using hid), rfl⟩
  · exact ⟨.idIn, markerOf?_idIn hpath (by simp [hop]) (by simpa [hop] using hlist), rfl⟩

/-! ## The nodes of a tree -/

/-- The comparison is a single operation, and one that has an identity primitive if it is on the identity. -/
structure SafeComparison (c : Comparison) : Prop where
  single : ∃ op, c.operations = [op]
  identity : c.path = CollectionSchema.identityPath → ∀ op ∈ c.operations, op.OnIdentity

theorem countP_marked {c : Comparison} (h : SafeComparison c) :
    (Matcher.marked captures c).countP (marksIdentity ·.1) =
      if c.path == CollectionSchema.identityPath then 1 else 0 := by
  obtain ⟨op, hop⟩ := h.single
  by_cases hpath : c.path = CollectionSchema.identityPath
  · obtain ⟨m, hm, hidentity⟩ := exists_marksIdentity hpath h.single (h.identity hpath)
    simp [Matcher.marked, hm, Comparison.atoms, hop, hidentity, hpath]
  · have hnone : ∀ x ∈ Matcher.marked captures c, ¬ marksIdentity x.1 = true := by
      intro x hx hidentity
      exact hpath (path_of_marksIdentity (Matcher.mem_marked.mp hx).1 hidentity)
    simp [List.countP_eq_zero.mpr hnone, hpath]

theorem countP_flatMap_marked {cs : List Comparison} (h : ∀ c ∈ cs, SafeComparison c) :
    (cs.flatMap (Matcher.marked captures)).countP (marksIdentity ·.1) =
      cs.countP (·.path == CollectionSchema.identityPath) := by
  induction cs with
  | nil => rfl
  | cons c cs ih =>
    rw [List.forall_mem_cons] at h
    rw [List.flatMap_cons, List.countP_append, countP_marked h.1, ih h.2, List.countP_cons, Nat.add_comm]

/-- The primitives of a node are on the identity where its comparisons are. -/
structure SafeNode (cs : List Comparison) (own : List CollectionFilter) : Prop where
  count : own.countP isIdentity = cs.countP (·.path == CollectionSchema.identityPath)
  elsewhere : ∀ p ∈ own, p.path? ≠ some CollectionSchema.identityPath

theorem safeNode {cs : List Comparison} {groups : List (CaptureGroup CollectionMarker)} {own : List CollectionFilter}
    (hcs : ∀ c ∈ cs, SafeComparison c)
    (hmarked : (groups.flatMap CaptureGroup.entries).Perm (cs.flatMap (Matcher.marked captures)))
    (hmakes : FilterTree.Makes ofGroup groups own) : SafeNode cs own := by
  have hprimitives := entryWise_ofGroup.of_makes hmakes
  refine ⟨?_, fun p hp => ?_⟩
  · have hcount : own.countP isIdentity = (groups.flatMap CaptureGroup.entries).countP (marksIdentity ·.1) :=
      countP_eq_of_forall₂ hprimitives fun _ _ hp => (path?_of_translate hp).1
    rw [hcount, hmarked.countP_eq, countP_flatMap_marked hcs]
  · obtain ⟨x, hx, hp⟩ := exists_left_of_forall₂ hprimitives p hp
    obtain ⟨c, hc, hx⟩ := List.mem_flatMap.mp (hmarked.mem_iff.mp hx)
    obtain ⟨hmarker, ha⟩ := Matcher.mem_marked.mp hx
    rw [(path?_of_translate hp).2, (Comparison.mem_atoms.mp ha).1]
    by_cases hpath : c.path = CollectionSchema.identityPath
    · obtain ⟨m, hm, hidentity⟩ := exists_marksIdentity hpath (hcs c hc).single ((hcs c hc).identity hpath)
      obtain rfl := Option.some.inj (hm.symm.trans hmarker)
      simp [hidentity]
    · split
      · simp
      · simpa using hpath

/-! ## Resolved filters -/

/-- At most one primitive of the tree is on the identity, it is not directly below an OR, and no other names the
identity path. -/
structure IdentitySafe (tree : FilterTree CollectionFilter) : Prop where
  once : tree.filters.countP isIdentity ≤ 1
  place : ∀ x ∈ tree.attributed, x.2.isIdentity = true → x.1 ≠ .or
  elsewhere : ∀ p ∈ tree.filters, p.isIdentity = false → p.path? ≠ some CollectionSchema.identityPath

section Compile

variable {schema : CollectionSchema} {limits : Limits} {filter : Option Json}

/-- A resolved tree mirrors its clause, with safe nodes. -/
theorem safeNodes_of_resolve {clause : Clause} {r : Resolved CollectionFilter}
    (hparse : Clause.parse (.collection schema) limits filter = .ok clause) (h : resolve limits clause = .ok r) :
    clause.expression.Mirrored SafeNode r.tree := by
  have hand := (parse_shape hparse).1
  have hsafe : ∀ c ∈ clause.expression.childrenFirst, SafeComparison c := by
    intro c hc
    have hstems := stems_of_parse hparse c hc
    refine ⟨hstems.single, fun hpath => onIdentity_of_stems hstems hpath fun op hop => ?_⟩
    exact (identityRule_of_parse hparse).tests c (Expression.mem_flatten_iff.mpr hc) hpath op hop
  obtain ⟨tree, happly, -, rfl⟩ := RuleTable.resolve_eq_ok.mp h
  rw [(rules_decidedByLast hand (operations_ne_nil_of_parse hparse)).last, lastOnly_rules] at happly
  obtain ⟨rule, hrule, t, hmatch, hbuild⟩ := RuleTable.apply_eq_ok happly
  obtain rfl : rule = generalRule := List.mem_singleton.mp hrule
  have hnode : ∀ cs groups own, (∀ c ∈ cs, SafeComparison c) →
      (groups.flatMap CaptureGroup.entries).Perm (cs.flatMap (Matcher.marked captures)) →
      FilterTree.Makes ofGroup groups own → SafeNode cs own := fun _ _ _ => safeNode
  exact (Matcher.marked_of_greedy hmatch).comp hnode hsafe (FilterTree.parallel_of_build hbuild)

/-- What a clause obeys its tree obeys, if its nodes are safe. -/
theorem identitySafe_of_mirrored {e : Expression} {tree : FilterTree CollectionFilter}
    (hrule : e.IdentityRule CollectionSchema.identityPath) (h : e.Mirrored SafeNode tree) : IdentitySafe tree := by
  have hplaces : (tree.attributed.filter (isIdentity ·.2)).map (·.1.connective) =
      (e.usesOf CollectionSchema.identityPath).map (·.1) :=
    h.map_connective_attributed fun _ _ hnode => hnode.count
  refine ⟨?_, fun x hx hidentity hor => ?_, fun p hp _ => ?_⟩
  · have hcount : tree.filters.countP isIdentity = (tree.attributed.filter (isIdentity ·.2)).length := by
      rw [← tree.map_attributed, List.countP_map, List.countP_eq_length_filter]
      rfl
    have hlength := congrArg List.length hplaces
    rw [List.length_map, List.length_map] at hlength
    rw [hcount, hlength, ← Expression.countP_flatten]
    exact hrule.once
  · have hmem : x.1.connective ∈ (tree.attributed.filter (isIdentity ·.2)).map (·.1.connective) :=
      List.mem_map_of_mem (List.mem_filter.mpr ⟨hx, hidentity⟩)
    rw [hplaces] at hmem
    obtain ⟨y, hy, hconnective⟩ := List.mem_map.mp hmem
    obtain ⟨hy, hpath⟩ := Expression.mem_usesOf.mp hy
    have hyor : y.1 = .or := by rw [hconnective, hor]; rfl
    exact hrule.place y hy hpath hyor
  · obtain ⟨nodes, hnodes, -, hfilters⟩ := h.nodes
    obtain ⟨n, hn, hp⟩ := (hfilters p).mp hp
    exact (hnodes n hn).elsewhere p hp

/-- An identity primitive stands for a comparison on the identity, and the other way round. -/
theorem exists_isIdentity_iff {e : Expression} {tree : FilterTree CollectionFilter} (h : e.Mirrored SafeNode tree) :
    (∃ p ∈ tree.filters, p.isIdentity = true) ↔
      ∃ c ∈ e.childrenFirst, c.path = CollectionSchema.identityPath := by
  obtain ⟨nodes, hnodes, hcomparisons, hfilters⟩ := h.nodes
  have hnode : ∀ n ∈ nodes, (∃ p ∈ n.2, p.isIdentity = true) ↔ ∃ c ∈ n.1, c.path = CollectionSchema.identityPath := by
    intro n hn
    have hcount := (hnodes n hn).count
    rw [← List.countP_pos_iff, hcount, List.countP_pos_iff]
    simp only [beq_iff_eq]
  constructor
  · rintro ⟨p, hp, hidentity⟩
    obtain ⟨n, hn, hp⟩ := (hfilters p).mp hp
    obtain ⟨c, hc, hpath⟩ := (hnode n hn).mp ⟨p, hp, hidentity⟩
    exact ⟨c, (hcomparisons c).mpr ⟨n, hn, hc⟩, hpath⟩
  · rintro ⟨c, hc, hpath⟩
    obtain ⟨n, hn, hc⟩ := (hcomparisons c).mp hc
    obtain ⟨p, hp, hidentity⟩ := (hnode n hn).mpr ⟨c, hc, hpath⟩
    exact ⟨p, (hfilters p).mpr ⟨n, hn, hp⟩, hidentity⟩

/-- **Identity is safe end to end**: a filter that compiles has at most one identity primitive, not directly below an
OR, no other primitive on the identity path, and has that one exactly if the document has a condition there. -/
theorem compile_identitySafe {r : Resolved CollectionFilter} (h : compile schema limits filter = .ok r) :
    IdentitySafe r.tree ∧ ((∃ p ∈ r.tree.filters, p.isIdentity = true) ↔
      ∃ entries, filter = some (.object entries) ∧
        ∃ entry ∈ entries, Document.ConditionOn CollectionSchema.identityPath entry) := by
  obtain ⟨clause, hparse, hresolve⟩ := bind_eq_ok.mp h
  have hnodes := safeNodes_of_resolve hparse hresolve
  have hkey : IsFieldKey CollectionSchema.identityPath := by decide
  exact ⟨identitySafe_of_mirrored (identityRule_of_parse hparse) hnodes,
    (exists_isIdentity_iff hnodes).trans (parse_conditionOn hkey hparse)⟩

end Compile

/-- A negated choice with a list of identities to be left out, which becomes a conjunction with a list to be in. -/
def unlessOthers : Json :=
  .object [("$not", .object [("$or", .array [
    .object [("_id", .object [("$nin", .array [.string "a", .string "b"])])],
    .object [("age", .object [("$lt", .number (.int 18))])]])])]

theorem compile_identitySafe_unlessOthers :
    ∃ r, compile { name := "users" } {} (some unlessOthers) = .ok r ∧
      r.tree.filters = [.idIn .isIn [.string "a", .string "b"], .number "age" .gte (.int 18)] ∧
      IdentitySafe r.tree ∧ ((∃ p ∈ r.tree.filters, p.isIdentity = true) ↔
        ∃ entries, some unlessOthers = some (.object entries) ∧
          ∃ entry ∈ entries, Document.ConditionOn CollectionSchema.identityPath entry) := by
  have hfilters : (compile { name := "users" } {} (some unlessOthers)).map (·.tree.filters) =
      .ok [.idIn .isIn [.string "a", .string "b"], .number "age" .gte (.int 18)] := by
    decide +kernel
  obtain ⟨r, hcompile, hr⟩ := map_eq_ok.mp hfilters
  exact ⟨r, hcompile, hr, compile_identitySafe hcompile⟩

end CollectionFilter

end DocumentFilter
