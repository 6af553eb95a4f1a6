/-
Lists without their repetitions: `eraseDups` keeps the first occurrence of
every item. It commutes with filters (`eraseDups_filter`), so of a list it keeps
the head and, of the tail without repetitions, what differs from the head
(`eraseDups_cons`); all else is by induction on the list.
-/
import Mathlib.Data.List.Nodup

namespace DocumentFilter

variable {α β : Type} [BEq α] [LawfulBEq α]

theorem eraseDups_filter {l : List α} : ∀ p : α → Bool, (l.filter p).eraseDups = l.eraseDups.filter p := by
  induction l with
  | nil => exact fun _ => rfl
  | cons a l ih =>
    intro p
    rw [List.eraseDups_cons, ih]
    cases ha : p a with
    | true =>
      rw [List.filter_cons_of_pos ha, List.filter_cons_of_pos ha, List.eraseDups_cons, List.filter_filter, ih,
        List.filter_filter]
      exact congrArg (a :: List.filter · l.eraseDups) (funext fun _ => Bool.and_comm _ _)
    | false =>
      rw [List.filter_cons_of_neg (by simp [ha]), List.filter_cons_of_neg (by simp [ha]), ih, List.filter_filter]
      refine List.filter_congr fun b _ => ?_
      by_cases hb : b = a <;> simp [hb, ha]

theorem eraseDups_cons (a : α) (l : List α) : (a :: l).eraseDups = a :: l.eraseDups.filter fun b => !b == a := by
  rw [List.eraseDups_cons, eraseDups_filter]

theorem nodup_eraseDups (l : List α) : l.eraseDups.Nodup := by
  induction l with
  | nil => simp
  | cons a l ih =>
    rw [eraseDups_cons, List.nodup_cons]
    exact ⟨by simp, ih.filter _⟩

theorem eraseDups_append_singleton (l : List α) (a : α) [Decidable (a ∈ l)] :
    (l ++ [a]).eraseDups = if a ∈ l then l.eraseDups else l.eraseDups ++ [a] := by
  rw [List.eraseDups_append]
  split <;> rename_i ha <;> simp [List.removeAll, ha, eraseDups_cons]

/-- Reordered lists without their repetitions are the same up to order. -/
theorem perm_eraseDups {l l' : List α} (h : l.Perm l') : l.eraseDups.Perm l'.eraseDups := by
  rw [List.perm_ext_iff_of_nodup (nodup_eraseDups l) (nodup_eraseDups l')]
  intro a
  rw [List.mem_eraseDups, List.mem_eraseDups, h.mem_iff]

/-- The items are listed in the order in which they first occur. -/
theorem pairwise_idxOf_eraseDups (l : List α) : l.eraseDups.Pairwise fun a b => l.idxOf a < l.idxOf b := by
  induction l with
  | nil => simp
  | cons a l ih =>
    rw [eraseDups_cons, List.pairwise_cons]
    have hne {b : α} (hb : b ∈ l.eraseDups.filter fun b => !b == a) : a ≠ b := by
      rintro rfl
      simp at hb
    refine ⟨fun b hb => ?_, (ih.filter _).imp_of_mem fun hb hc hlt => ?_⟩
    · rw [List.idxOf_cons_self, List.idxOf_cons_ne l (hne hb)]
      exact Nat.succ_pos _
    · rw [List.idxOf_cons_ne l (hne hb), List.idxOf_cons_ne l (hne hc)]
      exact Nat.succ_lt_succ hlt

theorem eraseDups_map [BEq β] [LawfulBEq β] {f : α → β} (hf : ∀ a b, f a = f b → a = b) (l : List α) :
    (l.map f).eraseDups = l.eraseDups.map f := by
  induction l with
  | nil => rfl
  | cons a l ih =>
    rw [List.map_cons, eraseDups_cons, eraseDups_cons, List.map_cons, ih, List.filter_map]
    refine congrArg (f a :: List.map f ·) (List.filter_congr fun b _ => ?_)
    by_cases hb : b = a
    · simp [hb]
    · simp [hb, mt (hf b a) hb]

/-- Copies of an item count as one. -/
theorem eraseDups_replicate_append (n : Nat) (a : α) (l : List α) :
    (List.replicate (n + 1) a ++ l).eraseDups = (a :: l).eraseDups := by
  induction n with
  | zero => rfl
  | succ n ih =>
    rw [List.replicate_succ, List.cons_append, eraseDups_cons, ih, eraseDups_cons,
      List.filter_cons_of_neg (by simp), List.filter_filter]
    simp only [Bool.and_self]

end DocumentFilter
