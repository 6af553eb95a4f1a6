/-
Computations that may fail: what is known of their steps when the whole has
succeeded. A `mapM` that succeeds is its function related item by item
(`List.Forall₂`), which is the form later modules work with.
-/
import Mathlib.Data.List.Forall2

namespace DocumentFilter

variable {ε α β : Type}

theorem bind_eq_ok {x : Except ε α} {f : α → Except ε β} {b : β} :
    x >>= f = .ok b ↔ ∃ a, x = .ok a ∧ f a = .ok b := by
  cases x <;> simp [bind, Except.bind]

theorem bind_eq_error {x : Except ε α} {f : α → Except ε β} {e : ε} :
    x >>= f = .error e ↔ x = .error e ∨ ∃ a, x = .ok a ∧ f a = .error e := by
  cases x <;> simp [bind, Except.bind]

theorem pure_eq_ok {a b : α} : (pure a : Except ε α) = .ok b ↔ a = b := by
  simp [pure, Except.pure]

theorem map_eq_ok {x : Except ε α} {f : α → β} {b : β} :
    x.map f = .ok b ↔ ∃ a, x = .ok a ∧ f a = b := by
  cases x <;> simp [Except.map]

theorem mapM_eq_ok {f : α → Except ε β} :
    ∀ {l : List α} {r : List β}, l.mapM f = .ok r ↔ List.Forall₂ (fun a b => f a = .ok b) l r
  | [], r => by
    rw [List.mapM_nil, pure_eq_ok, List.forall₂_nil_left_iff]
    exact eq_comm
  | a :: l, r => by
    simp only [List.mapM_cons, bind_eq_ok, pure_eq_ok, List.forall₂_cons_left_iff, mapM_eq_ok (l := l)]
    constructor
    · rintro ⟨b, hb, r, hr, rfl⟩
      exact ⟨b, r, hb, hr, rfl⟩
    · rintro ⟨b, r, hb, hr, rfl⟩
      exact ⟨b, hb, r, hr, rfl⟩

theorem mapM_congr_of_mem {f g : α → Except ε β} : ∀ {l : List α}, (∀ a ∈ l, f a = g a) → l.mapM f = l.mapM g
  | [], _ => rfl
  | a :: l, h => by
    rw [List.forall_mem_cons] at h
    rw [List.mapM_cons, List.mapM_cons, h.1, mapM_congr_of_mem h.2]

theorem mapM_flatMap {γ : Type} {f : α → List γ} {g : γ → Except ε β} (l : List α) :
    (l.flatMap f).mapM g = (l.mapM fun a => (f a).mapM g).map List.flatten := by
  induction l with
  | nil => rfl
  | cons a l ih =>
    rw [List.flatMap_cons, List.mapM_append, List.mapM_cons, ih]
    cases (f a).mapM g with
    | error e => rfl
    | ok first => cases l.mapM fun a => (f a).mapM g <;> rfl

/-- The first item that fails does so with the error. -/
def FailsFirst (f : α → Except ε β) (l : List α) (e : ε) : Prop :=
  ∃ before a after, l = before ++ a :: after ∧ (∀ b ∈ before, ∃ r, f b = .ok r) ∧ f a = .error e

theorem mapM_eq_error_iff {f : α → Except ε β} {e : ε} : ∀ {l : List α}, l.mapM f = .error e ↔ FailsFirst f l e
  | [] => by
    constructor
    · intro h
      cases h
    · rintro ⟨before, a, after, hnil, -⟩
      cases before <;> cases hnil
  | a :: l => by
    simp only [List.mapM_cons, bind_eq_error, mapM_eq_error_iff (l := l)]
    constructor
    · rintro (ha | ⟨b, hb, ⟨before, a', after, rfl, hbefore, ha'⟩ | ⟨_, -, h⟩⟩)
      · exact ⟨[], a, l, rfl, by simp, ha⟩
      · exact ⟨a :: before, a', after, rfl, List.forall_mem_cons.mpr ⟨⟨b, hb⟩, hbefore⟩, ha'⟩
      · cases h
    · rintro ⟨before, a', after, hsplit, hbefore, ha'⟩
      cases before with
      | nil =>
        cases hsplit
        exact .inl ha'
      | cons first before =>
        cases hsplit
        obtain ⟨⟨b, hb⟩, hbefore⟩ := List.forall_mem_cons.mp hbefore
        exact .inr ⟨b, hb, .inl ⟨before, a', after, rfl, hbefore, ha'⟩⟩

/-- A `mapM` that fails has the error of one of the items. -/
theorem mapM_eq_error {f : α → Except ε β} {e : ε} {l : List α} (h : l.mapM f = .error e) :
    ∃ a ∈ l, f a = .error e := by
  obtain ⟨before, a, after, rfl, -, ha⟩ := mapM_eq_error_iff.mp h
  exact ⟨a, by simp, ha⟩

theorem exists_mapM_eq_ok {f : α → Except ε β} {l : List α} (h : ∀ a ∈ l, ∃ b, f a = .ok b) :
    ∃ r, l.mapM f = .ok r := by
  cases hl : l.mapM f with
  | ok r => exact ⟨r, rfl⟩
  | error e =>
    obtain ⟨a, ha, herr⟩ := mapM_eq_error hl
    obtain ⟨b, hb⟩ := h a ha
    cases herr.symm.trans hb

/-- A `mapM` succeeds with good items if every item has a good outcome. -/
theorem exists_mapM_iff {f : α → Except ε β} {P : β → Prop} : ∀ {l : List α},
    (∃ r, l.mapM f = .ok r ∧ ∀ b ∈ r, P b) ↔ ∀ a ∈ l, ∃ b, f a = .ok b ∧ P b
  | [] => by simp [pure_eq_ok]
  | a :: l => by
    rw [List.forall_mem_cons, ← exists_mapM_iff (l := l)]
    simp only [List.mapM_cons, bind_eq_ok, pure_eq_ok]
    constructor
    · rintro ⟨_, ⟨b, hb, r, hr, rfl⟩, hall⟩
      rw [List.forall_mem_cons] at hall
      exact ⟨⟨b, hb, hall.1⟩, r, hr, hall.2⟩
    · rintro ⟨⟨b, hb, hP⟩, r, hr, hall⟩
      exact ⟨b :: r, ⟨b, hb, r, hr, rfl⟩, List.forall_mem_cons.mpr ⟨hP, hall⟩⟩

theorem exists_left_of_forall₂ {R : α → β → Prop} {l : List α} {r : List β} (h : List.Forall₂ R l r) :
    ∀ b ∈ r, ∃ a ∈ l, R a b := by
  induction h with
  | nil => simp
  | cons hab _ ih =>
    rw [List.forall_mem_cons]
    refine ⟨⟨_, List.mem_cons_self, hab⟩, fun b hb => ?_⟩
    obtain ⟨a, ha, hR⟩ := ih b hb
    exact ⟨a, List.mem_cons_of_mem _ ha, hR⟩

theorem exists_right_of_forall₂ {R : α → β → Prop} {l : List α} {r : List β} (h : List.Forall₂ R l r) :
    ∀ a ∈ l, ∃ b ∈ r, R a b := exists_left_of_forall₂ h.flip

theorem forall₂_flatMap {γ : Type} {R : γ → β → Prop} {f : α → List γ} {l : List α} {lists : List (List β)}
    (h : List.Forall₂ (fun a list => List.Forall₂ R (f a) list) l lists) :
    List.Forall₂ R (l.flatMap f) lists.flatten := by
  induction h with
  | nil => exact .nil
  | cons hab _ ih =>
    rw [List.flatMap_cons, List.flatten_cons]
    exact List.rel_append hab ih

theorem flatMap_eq_of_forall₂ {R : α → β → Prop} {f : α → List β} {l : List α} {r : List β}
    (h : List.Forall₂ R l r) (hR : ∀ a b, R a b → f a = [b]) : l.flatMap f = r := by
  induction h with
  | nil => rfl
  | cons hab _ ih => rw [List.flatMap_cons, hR _ _ hab, ih, List.singleton_append]

theorem map_eq_of_forall₂ {R : α → β → Prop} {f : α → β} {l : List α} {r : List β}
    (h : List.Forall₂ R l r) (hR : ∀ a b, R a b → f a = b) : l.map f = r := by
  induction h with
  | nil => rfl
  | cons hab _ ih => rw [List.map_cons, hR _ _ hab, ih]

theorem all_eq_of_forall₂ {R : α → β → Prop} {p : α → Bool} {q : β → Bool} {l : List α} {r : List β}
    (h : List.Forall₂ R l r) (hR : ∀ a b, R a b → q b = p a) : r.all q = l.all p := by
  induction h with
  | nil => rfl
  | cons hab _ ih => rw [List.all_cons, List.all_cons, hR _ _ hab, ih]

theorem countP_eq_of_forall₂ {R : α → β → Prop} {p : α → Bool} {q : β → Bool} {l : List α} {r : List β}
    (h : List.Forall₂ R l r) (hR : ∀ a b, R a b → q b = p a) : r.countP q = l.countP p := by
  induction h with
  | nil => rfl
  | cons hab _ ih => rw [List.countP_cons, List.countP_cons, hR _ _ hab, ih]

theorem forM_eq_ok {f : α → Except ε Unit} :
    ∀ {l : List α}, l.forM f = .ok () ↔ ∀ a ∈ l, f a = .ok ()
  | [] => by simp only [List.forM, pure_eq_ok, List.not_mem_nil, false_implies, implies_true]
  | a :: l => by
    have step : (a :: l).forM f = (f a >>= fun _ => l.forM f) := rfl
    rw [step, bind_eq_ok, List.forall_mem_cons, forM_eq_ok (l := l)]
    exact ⟨fun ⟨_, ha, hl⟩ => ⟨ha, hl⟩, fun ⟨ha, hl⟩ => ⟨(), ha, hl⟩⟩

/-- A `forM` that fails has the error of one of the items. -/
theorem forM_eq_error {f : α → Except ε Unit} {e : ε} :
    ∀ {l : List α}, l.forM f = .error e → ∃ a ∈ l, f a = .error e
  | [], h => by cases h
  | a :: l, h => by
    have step : (a :: l).forM f = (f a >>= fun _ => l.forM f) := rfl
    rw [step] at h
    rcases bind_eq_error.mp h with ha | ⟨_, -, hl⟩
    · exact ⟨a, List.mem_cons_self, ha⟩
    · obtain ⟨a', ha', hf⟩ := forM_eq_error hl
      exact ⟨a', List.mem_cons_of_mem _ ha', hf⟩

end DocumentFilter
