import Mathlib.Data.List.GetD

set_option autoImplicit false

-- A slice is a window of an array with some room behind it.

namespace Slices

variable {α β γ δ ε : Type}

structure Slice where
  array : Nat
  offset : Nat
  len : Nat
  cap : Nat
  deriving DecidableEq, Repr

abbrev Heap (α : Type) := List (List α)

namespace Heap

def array (h : Heap α) (n : Nat) : List α := h.getD n []

def contents (h : Heap α) (s : Slice) : List α := ((h.array s.array).drop s.offset).take s.len

def write (h : Heap α) (n i : Nat) (new : List α) : Heap α :=
  h.set n ((h.array n).take i ++ new ++ (h.array n).drop (i + new.length))

end Heap

structure Slice.Fits (s : Slice) (h : Heap α) : Prop where
  array : s.array < h.length
  len : s.len ≤ s.cap
  cap : s.offset + s.cap ≤ (h.array s.array).length

def Extends (h h' : Heap α) : Prop := ∃ more, h' = h ++ more

abbrev Action (α ε β : Type) := ExceptT ε (StateM (Heap α)) β

def Action.after (m : Action α ε β) (h : Heap α) : Except ε β × Heap α := m.run.run h

section Operations

def lift (value : Except ε β) : Action α ε β := fun h => (value, h)

def read (s : Slice) : Action α ε (List α) := fun h => (.ok (h.contents s), h)

def index [Inhabited α] (s : Slice) (i : Nat) (fault : ε) : Action α ε α :=
  fun h => (if i < s.len then .ok ((h.contents s).getD i default) else .error fault, h)

-- `s[low:high]`, which reaches into the room behind the window.
def reslice (s : Slice) (low high : Nat) (fault : ε) : Action α ε Slice :=
  fun h => (if low ≤ high ∧ high ≤ s.cap then .ok ⟨s.array, s.offset + low, high - low, s.cap - low⟩ else .error fault, h)

def alloc (contents : List α) : Action α ε Slice :=
  fun h => (.ok ⟨h.length, 0, contents.length, contents.length⟩, h ++ [contents])

def copy (dst src : Slice) : Action α ε Unit :=
  fun h => (.ok (), h.write dst.array dst.offset ((h.contents src).take dst.len))

-- `append(s, a)`. The spare room that a new array may get is left out, as no one appends to it.
def append (s : Slice) (a : α) : Action α ε Slice :=
  fun h =>
    if s.len < s.cap then (.ok { s with len := s.len + 1 }, h.write s.array (s.offset + s.len) [a])
    else (alloc (h.contents s ++ [a]) : Action α ε Slice) h

end Operations

section After

@[simp] theorem after_pure (b : β) (h : Heap α) : (pure b : Action α ε β).after h = (.ok b, h) := rfl

@[simp] theorem after_read (s : Slice) (h : Heap α) : (read s : Action α ε _).after h = (.ok (h.contents s), h) := rfl

theorem after_bind (m : Action α ε β) (f : β → Action α ε γ) (h : Heap α) :
    (m >>= f).after h = match m.after h with
      | (.ok b, h') => (f b).after h'
      | (.error e, h') => (.error e, h') := by
  unfold Action.after
  simp only [ExceptT.run_bind, StateT.run_bind]
  rcases (StateT.run (ExceptT.run m) h : Except ε β × Heap α) with ⟨e | b, h'⟩ <;> rfl

theorem after_bind_ok {m : Action α ε β} {f : β → Action α ε γ} {h h' : Heap α} {b : β} (first : m.after h = (.ok b, h')) :
    (m >>= f).after h = (f b).after h' := by
  rw [after_bind, first]

end After

namespace Extends

variable {h h' h'' : Heap α}

theorem refl (h : Heap α) : Extends h h := ⟨[], (List.append_nil h).symm⟩

theorem trans (first : Extends h h') (second : Extends h' h'') : Extends h h'' := by
  obtain ⟨more, rfl⟩ := first
  obtain ⟨more', rfl⟩ := second
  exact ⟨more ++ more', List.append_assoc _ _ _⟩

theorem array (kept : Extends h h') {n : Nat} (there : n < h.length) : h'.array n = h.array n := by
  obtain ⟨more, rfl⟩ := kept
  exact List.getD_append _ _ _ _ there

theorem length (kept : Extends h h') : h.length ≤ h'.length := by
  obtain ⟨more, rfl⟩ := kept
  rw [List.length_append]
  exact Nat.le_add_right _ _

theorem fits (kept : Extends h h') {s : Slice} (fits : s.Fits h) : s.Fits h' :=
  ⟨Nat.lt_of_lt_of_le fits.array kept.length, fits.len, by rw [kept.array fits.array]; exact fits.cap⟩

theorem contents (kept : Extends h h') {s : Slice} (fits : s.Fits h) : h'.contents s = h.contents s := by
  unfold Heap.contents
  rw [kept.array fits.array]

end Extends

section Windows

variable {h : Heap α} {s : Slice}

theorem Slice.Fits.length (fits : s.Fits h) : (h.contents s).length = s.len := by
  have := fits.len
  have := fits.cap
  rw [Heap.contents, List.length_take, List.length_drop]
  omega

theorem contents_reslice (low : Nat) {high : Nat} (inside : high ≤ s.len) :
    h.contents ⟨s.array, s.offset + low, high - low, s.cap - low⟩ = ((h.contents s).drop low).take (high - low) := by
  rw [Heap.contents, Heap.contents, List.drop_take, List.take_take, List.drop_drop, Nat.min_eq_left (by omega)]

theorem fits_reslice (fits : s.Fits h) {low high : Nat} (ordered : low ≤ high) (inside : high ≤ s.cap) :
    Slice.Fits ⟨s.array, s.offset + low, high - low, s.cap - low⟩ h := by
  have := fits.cap
  exact ⟨fits.array, by dsimp only; omega, by dsimp only; omega⟩

theorem array_write {m : Nat} (there : m < h.length) (n i : Nat) (new : List α) :
    (h.write n i new).array m = if n = m then (h.array n).take i ++ new ++ (h.array n).drop (i + new.length) else h.array m := by
  unfold Heap.write Heap.array
  rw [List.getD_eq_getElem?_getD, List.getElem?_set]
  split
  · next same =>
    rw [if_pos (by omega)]
    rfl
  · rw [← List.getD_eq_getElem?_getD]

theorem fits_write (fits : s.Fits h) (n : Nat) {i : Nat} {new : List α}
    (inside : n = s.array → i + new.length ≤ (h.array n).length) :
    s.Fits (h.write n i new) := by
  refine ⟨?_, fits.len, ?_⟩
  · rw [Heap.write, List.length_set]
    exact fits.array
  · rw [array_write fits.array]
    split
    · next same =>
      have cap := fits.cap
      have inside := inside same
      subst same
      simp only [List.length_append, List.length_take, List.length_drop]
      omega
    · exact fits.cap

theorem contents_write_one (fits : s.Fits h) (n i : Nat) (inside : n = s.array → i < (h.array n).length) (a : α) :
    (h.write n i [a]).contents s =
      if n = s.array ∧ s.offset ≤ i then (h.contents s).set (i - s.offset) a else h.contents s := by
  by_cases same : n = s.array
  · subst same
    have set : (h.array s.array).take i ++ [a] ++ (h.array s.array).drop (i + [a].length) = (h.array s.array).set i a := by
      rw [List.set_eq_take_append_cons_drop, if_pos (inside rfl)]
      simp
    rw [Heap.contents, array_write fits.array, if_pos rfl, set, Heap.contents]
    by_cases behind : s.offset ≤ i
    · rw [if_pos ⟨rfl, behind⟩, List.drop_set, if_neg (by omega), List.take_set]
    · rw [if_neg fun both => behind both.2, List.drop_set, if_pos (by omega)]
  · rw [if_neg fun both => same both.1, Heap.contents, array_write fits.array, if_neg same, Heap.contents]

theorem after_reslice {low high : Nat} (ordered : low ≤ high) (inside : high ≤ s.cap) (fault : ε) :
    (reslice s low high fault : Action α ε _).after h = (.ok ⟨s.array, s.offset + low, high - low, s.cap - low⟩, h) := by
  show (if low ≤ high ∧ high ≤ s.cap then _ else _, h) = _
  rw [if_pos ⟨ordered, inside⟩]

theorem contents_grown (fits : s.Fits h) (room : s.len < s.cap) (a : α) :
    (h.write s.array (s.offset + s.len) [a]).contents { s with len := s.len + 1 } = h.contents s ++ [a] := by
  have cap := fits.cap
  have length : ((h.array s.array).take (s.offset + s.len)).length = s.offset + s.len := by
    rw [List.length_take]
    omega
  have window : (((h.array s.array).take (s.offset + s.len)).drop s.offset).length = s.len := by
    rw [List.length_drop, length, Nat.add_sub_cancel_left]
  unfold Heap.contents
  dsimp only
  rw [array_write fits.array, if_pos rfl, List.append_assoc, List.drop_append_of_le_length (by omega),
    List.take_append, window, Nat.add_sub_cancel_left, List.take_of_length_le (by omega), List.drop_take, Nat.add_sub_cancel_left]
  rfl

end Windows

structure Refines (rel : Heap α → β → γ → Prop) (m : Action α ε β) (h : Heap α) (value : Except ε γ) : Prop where
  agrees : match (m.after h).1, value with
    | .ok b, .ok c => rel (m.after h).2 b c
    | .error e, .error e' => e = e'
    | _, _ => False
  kept : Extends h (m.after h).2

def Holds (h : Heap α) (s : Slice) (elements : List α) : Prop := s.Fits h ∧ h.contents s = elements

def Same (_ : Heap α) (b c : β) : Prop := b = c

theorem Holds.mono {h h' : Heap α} {s : Slice} {elements : List α} (holds : Holds h s elements) (kept : Extends h h') :
    Holds h' s elements :=
  ⟨kept.fits holds.1, (kept.contents holds.1).trans holds.2⟩

theorem Holds.length {h : Heap α} {s : Slice} {elements : List α} (holds : Holds h s elements) : elements.length = s.len := by
  rw [← holds.2, holds.1.length]

section Refinement

variable {rel : Heap α → β → γ → Prop} {h : Heap α} {s : Slice} {elements : List α}

theorem Refines.pure {b : β} {c : γ} (related : rel h b c) : Refines rel (Pure.pure b : Action α ε β) h (.ok c) :=
  ⟨related, .refl h⟩

theorem Refines.bind {β' γ' : Type} {rel' : Heap α → β' → γ' → Prop} {m : Action α ε β} {f : β → Action α ε β'}
    {value : Except ε γ} {g : γ → Except ε γ'} (first : Refines rel m h value)
    (next : ∀ b c h', Extends h h' → rel h' b c → Refines rel' (f b) h' (g c)) : Refines rel' (m >>= f) h (value >>= g) := by
  obtain ⟨agrees, kept⟩ := first
  have step := after_bind m f h
  rcases done : m.after h with ⟨e | b, h'⟩
  all_goals
    rw [done] at agrees kept step
    cases value
  case error.error => exact ⟨by rw [step]; exact agrees, by rw [step]; exact kept⟩
  case error.ok => exact agrees.elim
  case ok.error => exact agrees.elim
  case ok.ok c =>
    obtain ⟨agrees', kept'⟩ := next b c h' kept agrees
    exact ⟨by rw [step]; exact agrees', by rw [step]; exact kept.trans kept'⟩

theorem Refines.bind_map {β' γ' : Type} {rel' : Heap α → β' → γ' → Prop} {m : Action α ε β} {f : β → Action α ε β'}
    {value : Except ε γ} {g : γ → γ'} (first : Refines rel m h value)
    (next : ∀ b c h', Extends h h' → rel h' b c → Refines rel' (f b) h' (.ok (g c))) : Refines rel' (m >>= f) h (value.map g) := by
  have both := first.bind (g := fun c => Except.ok (g c)) next
  cases value <;> exact both

theorem Refines.after_eq {m : Action α ε β} {c : γ} (refines : Refines rel m h (.ok c)) :
    ∃ b h', m.after h = (.ok b, h') ∧ Extends h h' ∧ rel h' b c := by
  obtain ⟨agrees, kept⟩ := refines
  rcases done : m.after h with ⟨e | b, h'⟩
  all_goals rw [done] at agrees kept
  · exact agrees.elim
  · exact ⟨b, h', rfl, kept, agrees⟩

theorem Refines.after_ok {β' γ' : Type} {rel' : Heap α → β' → γ' → Prop} {m : Action α ε β} {f : β → Action α ε β'} {c : γ}
    {value : Except ε γ'} (first : Refines rel m h (.ok c))
    (next : ∀ b h', Extends h h' → rel h' b c → Refines rel' (f b) h' value) : Refines rel' (m >>= f) h value := by
  obtain ⟨b, h', done, kept, related⟩ := first.after_eq
  obtain ⟨agrees', kept'⟩ := next b h' kept related
  have step : (m >>= f).after h = (f b).after h' := after_bind_ok done
  exact ⟨by rw [step]; exact agrees', by rw [step]; exact kept.trans kept'⟩

theorem Refines.congr {m m' : Action α ε β} {value : Except ε γ} (refines : Refines rel m' h value)
    (same : m.after h = m'.after h) :
    Refines rel m h value :=
  ⟨by rw [same]; exact refines.agrees, by rw [same]; exact refines.kept⟩

theorem refines_lift (value : Except ε β) (h : Heap α) : Refines Same (lift value) h value := by
  refine ⟨?_, .refl h⟩
  cases value <;> rfl

theorem refines_read (holds : Holds h s elements) : Refines Same (read s : Action α ε _) h (.ok elements) :=
  ⟨holds.2, .refl h⟩

theorem Refines.then_read {m : Action α ε Slice} {value : Except ε (List α)} (refines : Refines Holds m h value) :
    Refines Same (m >>= read) h value := by
  have both := refines.bind (g := Except.ok) fun part elements' h' _ holds => refines_read holds
  cases value <;> exact both

theorem array_fresh (h : Heap α) (elements : List α) : Heap.array (h ++ [elements]) h.length = elements := by
  rw [Heap.array, List.getD_append_right _ _ _ _ (Nat.le_refl _), Nat.sub_self]
  rfl

theorem refines_alloc (elements : List α) (h : Heap α) : Refines Holds (alloc elements : Action α ε _) h (.ok elements) := by
  refine ⟨⟨⟨?_, Nat.le_refl _, ?_⟩, ?_⟩, ⟨[elements], rfl⟩⟩
  · show h.length < (h ++ [elements]).length
    rw [List.length_append]
    exact Nat.lt_succ_self _
  · show 0 + elements.length ≤ (Heap.array (h ++ [elements]) h.length).length
    have same := congrArg List.length (array_fresh h elements)
    omega
  · show ((Heap.array (h ++ [elements]) h.length).drop 0).take elements.length = elements
    rw [array_fresh, List.drop_zero, List.take_length]

theorem refines_reslice (holds : Holds h s elements) (low : Nat) {high : Nat} (inside : high ≤ elements.length) (fault : ε) :
    Refines Holds (reslice s low high fault : Action α ε _) h
      (if low ≤ high ∧ high ≤ elements.length then .ok ((elements.drop low).take (high - low)) else .error fault) := by
  have length := holds.length
  have room := holds.1.len
  have after : (reslice s low high fault : Action α ε _).after h =
      (if low ≤ high ∧ high ≤ s.cap then .ok ⟨s.array, s.offset + low, high - low, s.cap - low⟩ else .error fault, h) := rfl
  by_cases ordered : low ≤ high
  · rw [if_pos ⟨ordered, by omega⟩] at after
    rw [if_pos ⟨ordered, inside⟩]
    refine ⟨?_, by rw [after]; exact .refl h⟩
    rw [after, ← holds.2]
    exact ⟨fits_reslice holds.1 ordered (by omega), contents_reslice low (by omega)⟩
  · rw [if_neg fun both => ordered both.1] at after
    rw [if_neg fun both => ordered both.1]
    exact ⟨by rw [after], by rw [after]; exact .refl h⟩

theorem write_fresh (h : Heap α) (elements : List α) (i : Nat) (new : List α) :
    Heap.write (h ++ [elements]) h.length i new = h ++ [elements.take i ++ new ++ elements.drop (i + new.length)] := by
  rw [Heap.write, array_fresh, List.set_append_right _ _ (Nat.le_refl _), Nat.sub_self]
  rfl

end Refinement

end Slices
