import Mathlib.Data.List.Chain
import Mathlib.Data.List.Nodup

set_option autoImplicit false

-- A list whose links are kept with its elements, and what a removal or an addition has to change of them.

namespace LinkedList

variable {α : Type} {nil first last last' x : α} {next prev next' prev' : α → α} {order before rest : List α}

def Links (next prev : α → α) (order : List α) : Prop := order.IsChain fun a b => next a = b ∧ prev b = a

structure Linked (nil : α) (next prev : α → α) (first last : α) (order : List α) : Prop where
  nodup : order.Nodup
  proper : nil ∉ order
  starts : first = order.headD nil
  ends : ∀ e, order.getLast? = some e → last = e ∧ next e = nil
  links : Links next prev order

theorem Links.congr (links : Links next prev order) (forth : ∀ a ∈ order.dropLast, next' a = next a)
    (back : ∀ a ∈ order.tail, prev' a = prev a) :
    Links next' prev' order := by
  induction order with
  | nil => exact List.isChain_nil
  | cons a rest ih =>
    cases rest with
    | nil => exact List.isChain_singleton a
    | cons b rest =>
      obtain ⟨joined, links⟩ := List.isChain_cons_cons.mp links
      refine List.isChain_cons_cons.mpr ⟨⟨?_, ?_⟩, ih links ?_ ?_⟩
      · rw [forth a (by simp), joined.1]
      · rw [back b (by simp), joined.2]
      · exact fun c inside => forth c (by simp [inside])
      · exact fun c inside => back c (by simp [List.mem_of_mem_tail inside])

theorem Linked.congr (linked : Linked nil next prev first last order) (forth : ∀ a ∈ order, next' a = next a)
    (back : ∀ a ∈ order.tail, prev' a = prev a) :
    Linked nil next' prev' first last order where
  nodup := linked.nodup
  proper := linked.proper
  starts := linked.starts
  ends e final := ⟨(linked.ends e final).1, (forth e (List.mem_of_getLast? final)).trans (linked.ends e final).2⟩
  links := linked.links.congr (fun a inside => forth a (List.dropLast_subset _ inside)) back

theorem linked_nil (nil last : α) (next prev : α → α) : Linked nil next prev nil last [] :=
  ⟨List.nodup_nil, List.not_mem_nil, rfl, nofun, List.isChain_nil⟩

theorem Linked.first_eq (linked : Linked nil next prev first last (x :: rest)) : first = x := linked.starts

theorem Linked.first_mem (linked : Linked nil next prev first last order) (some : first ≠ nil) : first ∈ order := by
  cases order with
  | nil => exact absurd linked.starts some
  | cons a rest => rw [linked.first_eq]; exact List.mem_cons_self

theorem Linked.eq_nil (linked : Linked nil next prev first last order) (empty : first = nil) : order = [] := by
  cases order with
  | nil => rfl
  | cons a rest => exact absurd (linked.first_eq.symm.trans empty ▸ List.mem_cons_self) linked.proper

theorem Linked.last_mem (linked : Linked nil next prev first last order) (some : order ≠ []) : last ∈ order := by
  have final := List.getLast?_eq_getLast_of_ne_nil some
  rw [(linked.ends _ final).1]
  exact List.getLast_mem some

theorem Linked.at (linked : Linked nil next prev first last (before ++ x :: rest)) :
    next x = rest.headD nil ∧ ∀ p, before.getLast? = some p → next p = x ∧ prev x = p := by
  obtain ⟨-, tail, joined⟩ := List.isChain_append.mp linked.links
  refine ⟨?_, fun p final => joined p final x (by simp)⟩
  cases rest with
  | nil => exact (linked.ends x (by simp)).2
  | cons b rest => exact (List.isChain_cons_cons.mp tail).1.1

theorem Linked.next_cases (linked : Linked nil next prev first last order) (inside : x ∈ order) :
    next x = nil ∨ next x ∈ order := by
  obtain ⟨before, rest, rfl⟩ := List.append_of_mem inside
  rw [linked.at.1]
  cases rest with
  | nil => exact .inl rfl
  | cons b rest => exact .inr (by simp)

theorem Linked.prev_mem (linked : Linked nil next prev first last order) (inside : x ∈ order) (later : x ≠ first) :
    prev x ∈ order := by
  obtain ⟨before, rest, rfl⟩ := List.append_of_mem inside
  cases before using List.reverseRecOn with
  | nil => exact absurd linked.starts.symm later
  | append_singleton before p =>
    rw [(linked.at.2 p (by simp)).2]
    simp

section Remove

variable [DecidableEq α]

theorem erase_middle (distinct : (before ++ x :: rest).Nodup) : (before ++ x :: rest).erase x = before ++ rest := by
  have absent : x ∉ before := fun inside => (List.disjoint_of_nodup_append distinct) inside List.mem_cons_self
  rw [List.erase_append_right _ absent, List.erase_cons_head]

theorem Linked.remove_first (linked : Linked nil next prev first last order) (here : x ∈ order) (atFirst : x = first)
    (forth : ∀ a ∈ order, next' a = next a) (back : ∀ a ∈ order, a ≠ next x → prev' a = prev a) :
    Linked nil next' prev' (next x) last (order.erase x) := by
  cases order with
  | nil => exact absurd here List.not_mem_nil
  | cons a rest =>
    obtain rfl : x = a := atFirst.trans linked.first_eq
    have after := (@Linked.at α nil first last x next prev [] rest linked).1
    have distinct := List.nodup_cons.mp linked.nodup
    rw [List.erase_cons_head]
    refine ⟨distinct.2, fun inside => linked.proper (List.mem_cons_of_mem x inside), after, ?_, ?_⟩
    · intro e final
      have ends := linked.ends e (by rw [List.getLast?_cons, final]; rfl)
      exact ⟨ends.1, (forth e (List.mem_cons_of_mem x (List.mem_of_getLast? final))).trans ends.2⟩
    · cases rest with
      | nil => exact List.isChain_nil
      | cons b rest =>
        have inner := (List.nodup_cons.mp distinct.2).1
        refine Links.congr (List.isChain_cons_cons.mp linked.links).2 ?_ ?_
        · exact fun a inside => forth a (List.mem_cons_of_mem x (List.dropLast_subset _ inside))
        · intro a inside
          refine back a (List.mem_cons_of_mem x (List.mem_cons_of_mem b inside)) ?_
          rintro rfl
          rw [show next x = b from after] at inside
          exact inner inside

theorem Linked.remove_later (linked : Linked nil next prev first last order) (here : x ∈ order) (later : x ≠ first)
    (forth : ∀ a ∈ order, a ≠ prev x → next' a = next a) (joined : next' (prev x) = next x)
    (back : ∀ a ∈ order, a ≠ next x → prev' a = prev a) (returned : next x ≠ nil → prev' (next x) = prev x)
    (ending : last' = if next x = nil then prev x else last) : Linked nil next' prev' first last' (order.erase x) := by
  obtain ⟨before, rest, rfl⟩ := List.append_of_mem here
  cases before using List.reverseRecOn with
  | nil => exact absurd linked.starts.symm later
  | append_singleton before p =>
    obtain ⟨after, between⟩ := linked.at
    obtain ⟨-, isPrev⟩ := between p (by simp)
    obtain ⟨links, tail, -⟩ := List.isChain_append.mp linked.links
    have distinct := linked.nodup
    have kept : (before ++ [p] ++ rest).Nodup := erase_middle distinct ▸ distinct.erase x
    have disjoint := List.disjoint_of_nodup_append kept
    have inOrder : ∀ a ∈ before ++ [p] ++ rest, a ∈ before ++ [p] ++ x :: rest :=
      fun a inside => List.mem_of_mem_erase (erase_middle distinct ▸ inside)
    rw [erase_middle distinct]
    rw [isPrev] at joined forth returned ending
    -- what follows `x` is not among the elements before it
    have outside : ∀ a ∈ before ++ [p], a ≠ next x := by
      rintro a inside rfl
      rw [after] at inside
      cases rest with
      | nil => exact linked.proper (List.mem_append_left _ inside)
      | cons b rest => exact disjoint inside List.mem_cons_self
    have left : Links next' prev' (before ++ [p]) := by
      refine Links.congr links (fun a inside => ?_) fun a inside => ?_
      · rw [List.dropLast_concat] at inside
        refine forth a (inOrder a (by simp [inside])) ?_
        rintro rfl
        exact List.disjoint_of_nodup_append (List.nodup_append.mp kept).1 inside List.mem_cons_self
      · have earlier := List.mem_of_mem_tail inside
        exact back a (inOrder a (List.mem_append_left _ earlier)) (outside a earlier)
    have fromRest : ∀ a ∈ rest, next' a = next a := by
      refine fun a inside => forth a (inOrder a (List.mem_append_right _ inside)) ?_
      rintro rfl
      exact disjoint (by simp) inside
    have right : Links next' prev' rest := by
      cases rest with
      | nil => exact List.isChain_nil
      | cons b rest =>
        refine Links.congr (List.isChain_cons_cons.mp tail).2 (fun a inside => fromRest a (List.dropLast_subset _ inside)) fun a
          inside => ?_
        refine back a (inOrder a (List.mem_append_right _ (List.mem_of_mem_tail inside))) ?_
        rintro rfl
        rw [after] at inside
        exact (List.nodup_cons.mp (List.nodup_append.mp kept).2.1).1 inside
    refine ⟨kept, fun inside => linked.proper (inOrder nil inside), ?_, ?_, List.isChain_append.mpr ⟨left, right, ?_⟩⟩
    · rw [linked.starts]
      cases before <;> rfl
    · intro e final
      cases rest with
      | nil =>
        rw [List.append_nil, List.getLast?_concat, Option.some.injEq] at final
        have isNil : next x = nil := after
        rw [ending, if_pos isNil]
        exact ⟨final, final ▸ joined.trans isNil⟩
      | cons b rest =>
        have same : (before ++ [p] ++ x :: b :: rest).getLast? = some e := by simpa using final
        have ends := linked.ends e same
        have notNil : next x ≠ nil := fun isNil => linked.proper (by rw [← isNil, after]; simp)
        rw [ending, if_neg notNil, fromRest e (List.mem_of_getLast? (by simpa using final))]
        exact ends
    · intro a final b head
      rw [Option.mem_def, List.getLast?_concat, Option.some.injEq] at final
      obtain ⟨rest, rfl⟩ := List.head?_eq_some_iff.mp head
      subst final
      have follows : next x = b := after
      have notNil : next x ≠ nil := fun isNil => linked.proper (by rw [← isNil, follows]; simp)
      exact ⟨joined.trans follows, follows ▸ returned notNil⟩

end Remove

theorem Linked.append (linked : Linked nil next prev first last order) (fresh : x ∉ order) (notNil : x ≠ nil) (some : order ≠ [])
    (forth : ∀ a ∈ order, a ≠ last → next' a = next a) (joined : next' last = x) (ended : next' x = nil)
    (back : ∀ a ∈ order, prev' a = prev a) (returned : prev' x = last) : Linked nil next' prev' first x (order ++ [x]) := by
  obtain ⟨isLast, -⟩ := linked.ends _ (List.getLast?_eq_getLast_of_ne_nil some)
  refine ⟨?_, ?_, ?_, ?_, ?_⟩
  · exact List.nodup_append.mpr ⟨linked.nodup, List.nodup_singleton x, fun a inside b isNew same =>
      fresh (List.mem_singleton.mp isNew ▸ same ▸ inside)⟩
  · simpa using ⟨linked.proper, notNil.symm⟩
  · rw [linked.starts]
    cases order with
    | nil => exact absurd rfl some
    | cons a rest => rfl
  · intro e final
    rw [List.getLast?_concat, Option.some.injEq] at final
    exact ⟨final, final ▸ ended⟩
  · refine List.isChain_append.mpr ⟨Links.congr linked.links ?_ ?_, List.isChain_singleton x, ?_⟩
    · intro a inside
      refine forth a (List.dropLast_subset _ inside) ?_
      rintro rfl
      have distinct := linked.nodup
      rw [← List.dropLast_concat_getLast some, ← isLast] at distinct
      exact List.disjoint_of_nodup_append distinct inside (by simp)
    · exact fun a inside => back a (List.mem_of_mem_tail inside)
    · intro a final b head
      simp only [List.head?_cons, Option.mem_def, Option.some.injEq] at head
      rw [Option.mem_def, List.getLast?_eq_getLast_of_ne_nil some, Option.some.injEq, ← isLast] at final
      subst final head
      exact ⟨joined, returned⟩

def walk [DecidableEq α] (nil : α) (next : α → α) : Nat → α → List α
  | 0, _ => []
  | rounds + 1, a => if a = nil then [] else a :: walk nil next rounds (next a)

theorem Linked.walk_rest [DecidableEq α] {rounds : Nat} (linked : Linked nil next prev first last (before ++ rest))
    (enough : rest.length ≤ rounds) :
    walk nil next rounds (rest.headD nil) = rest := by
  induction rest generalizing before rounds with
  | nil =>
    cases rounds with
    | zero => rfl
    | succ rounds => exact if_pos rfl
  | cons a rest ih =>
    obtain ⟨rounds, rfl⟩ := Nat.exists_eq_succ_of_ne_zero (Nat.ne_of_gt (Nat.zero_lt_of_lt enough))
    have notNil : a ≠ nil := fun isNil => linked.proper (isNil ▸ by simp)
    rw [List.headD_cons, walk, if_neg notNil, linked.at.1,
      @ih (before ++ [a]) rounds (by rwa [List.append_assoc, List.singleton_append]) (Nat.le_of_succ_le_succ enough)]

theorem Linked.walk_eq [DecidableEq α] {rounds : Nat} (linked : Linked nil next prev first last order)
    (enough : order.length ≤ rounds) :
    walk nil next rounds first = order := by
  rw [linked.starts]
  exact @Linked.walk_rest α nil first last next prev [] order _ rounds linked enough

theorem Linked.prev_next (linked : Linked nil next prev first last order) (inside : x ∈ order) (more : next x ≠ nil) :
    prev (next x) = x := by
  obtain ⟨before, rest, rfl⟩ := List.append_of_mem inside
  cases rest with
  | nil => exact absurd linked.at.1 more
  | cons b rest =>
    have following : next x = b := linked.at.1
    have atNext : Linked nil next prev first last ((before ++ [x]) ++ b :: rest) := by
      rwa [List.append_assoc, List.singleton_append]
    rw [following, (atNext.at.2 x (by simp)).2]

theorem Linked.next_prev (linked : Linked nil next prev first last order) (inside : x ∈ order) (later : x ≠ first) :
    next (prev x) = x := by
  obtain ⟨before, rest, rfl⟩ := List.append_of_mem inside
  cases before using List.reverseRecOn with
  | nil => exact absurd linked.starts.symm later
  | append_singleton before p =>
    obtain ⟨forth, back⟩ := linked.at.2 p (by simp)
    rw [back, forth]

theorem linked_singleton (notNil : x ≠ nil) (ended : next x = nil) : Linked nil next prev x x [x] where
  nodup := List.nodup_singleton x
  proper := by simpa using notNil.symm
  starts := rfl
  ends e final := by
    obtain rfl : x = e := by simpa using final
    exact ⟨rfl, ended⟩
  links := List.isChain_singleton x

end LinkedList
