import Mathlib.Order.Lattice
import Mathlib.Data.List.Basic

/-!
# Folds that may fail, and accumulators that only tighten

`foldlM` in `Except` stops at the first error; a preorder that each successful step respects is
respected by the whole fold (`foldlM_rel`). A fold whose steps only look at their own element to
decide whether to fail is the plain fold, up to the first element that fails (`foldlM_check`), and
a component of the state is folded by itself (`foldl_component`).

The accumulators that the order is for are optional bounds: `none` is no bound, and a bound is
replaced only by one that is at least as tight. Folding `minMerge` gives the least element
(`least_eq_some`), folding `firstWins` the first one.
-/

namespace Entanglement.Lib

universe u v

theorem except_bind_eq_ok {ε : Type v} {α β : Type u} {x : Except ε α} {f : α → Except ε β} {b : β} :
    (x >>= f) = .ok b ↔ ∃ a, x = .ok a ∧ f a = .ok b := by
  cases x with
  | error e => exact ⟨nofun, nofun⟩
  | ok a => exact ⟨fun h => ⟨a, rfl, h⟩, fun ⟨a', ha, h⟩ => by cases ha; exact h⟩

theorem except_bind_eq_error {ε : Type v} {α β : Type u} {x : Except ε α} {f : α → Except ε β} {e : ε} :
    (x >>= f) = .error e ↔ x = .error e ∨ ∃ a, x = .ok a ∧ f a = .error e := by
  cases x with
  | error e' =>
    constructor
    · intro h
      cases h
      exact .inl rfl
    · rintro (h | ⟨a, h, -⟩)
      · cases h
        rfl
      · cases h
  | ok a =>
    constructor
    · intro h
      exact .inr ⟨a, rfl, h⟩
    · rintro (h | ⟨a', h, he⟩)
      · cases h
      · cases h
        exact he

variable {β : Type u} {ε : Type v}

/-- A guard of a `do` block that throws, then the rest. -/
theorem except_guard_eq_ok {c : Prop} [Decidable c] {e : ε} {f : PUnit → Except ε β} {b : β} :
    (if c then throw e >>= f else f PUnit.unit) = .ok b ↔ ¬ c ∧ f PUnit.unit = .ok b := by
  by_cases hc : c
  · rw [if_pos hc]
    exact ⟨nofun, fun h => absurd hc h.1⟩
  · rw [if_neg hc]
    exact ⟨fun h => ⟨hc, h⟩, fun h => h.2⟩

/-- What comes after such a `do` block comes after its guard. -/
theorem except_guard_bind {α : Type u} {c : Prop} [Decidable c] {e : ε} {f : PUnit → Except ε α}
    {g : α → Except ε β} :
    ((if c then throw e >>= f else f PUnit.unit) >>= g) =
      if c then throw e >>= (fun u => f u >>= g) else f PUnit.unit >>= g := by
  by_cases hc : c
  · rw [if_pos hc, if_pos hc]
    rfl
  · rw [if_neg hc, if_neg hc]

theorem except_mapError_eq_ok {ε ε' : Type v} {α : Type u} {x : Except ε α} {f : ε → ε'} {a : α} :
    x.mapError f = .ok a ↔ x = .ok a := by
  cases x <;> simp [Except.mapError]

theorem except_map_eq_ok {ε : Type v} {α β : Type u} {x : Except ε α} {f : α → β} {b : β} :
    x.map f = .ok b ↔ ∃ a, x = .ok a ∧ f a = b := by
  cases x <;> simp [Except.map]

theorem except_toOption_bind {α : Type u} (x : Except ε α) (f : α → Except ε β) :
    (x >>= f).toOption = x.toOption.bind fun a => (f a).toOption := by
  cases x <;> rfl

/-- What `mapM` returns, element by element. -/
theorem mapM_eq_ok {ε : Type v} {α : Type*} {β : Type u} {f : α → Except ε β} {l : List α}
    {r : List β} (h : l.mapM f = .ok r) : List.Forall₂ (fun a b => f a = .ok b) l r := by
  induction l generalizing r with
  | nil =>
    rw [List.mapM_nil] at h
    cases h
    exact .nil
  | cons a l ih =>
    rw [List.mapM_cons, except_bind_eq_ok] at h
    obtain ⟨b, hb, h⟩ := h
    rw [except_bind_eq_ok] at h
    obtain ⟨bs, hbs, h⟩ := h
    cases h
    exact .cons hb (ih hbs)

/-- A preorder that every successful step respects relates the ends of a successful fold. -/
theorem foldlM_rel {α : Type*} {f : β → α → Except ε β} {R : β → β → Prop} (hrefl : ∀ s, R s s)
    (htrans : ∀ {a b c}, R a b → R b c → R a c) (hstep : ∀ s x s', f s x = .ok s' → R s s') :
    ∀ {l : List α} {s s' : β}, l.foldlM f s = .ok s' → R s s' := by
  intro l
  induction l with
  | nil => intro s s' h; cases h; exact hrefl s
  | cons x l ih =>
    intro s s' h
    rw [List.foldlM_cons, except_bind_eq_ok] at h
    obtain ⟨m, hm, hrest⟩ := h
    exact htrans (hstep s x m hm) (ih hrest)

/-- A fold whose steps fail on account of their element alone: the first element that fails, or the
plain fold. -/
theorem foldlM_check {α : Type*} {f : β → α → Except ε β} {err : α → Option ε} {g : β → α → β}
    (hf : ∀ s x, f s x = (err x).elim (.ok (g s x)) .error) (l : List α) (s : β) :
    l.foldlM f s = (l.findSome? err).elim (.ok (l.foldl g s)) .error := by
  induction l generalizing s with
  | nil => rfl
  | cons x l ih =>
    rw [List.foldlM_cons, hf]
    cases hx : err x with
    | some e => simp [hx, bind, Except.bind]
    | none => simp [hx, bind, Except.bind, ih]

/-- A component of the state that each step updates by what it selects from its element, if
anything, is folded over the selected parts. -/
theorem foldl_component {α β γ δ : Type*} {g : β → α → β} (proj : β → γ) {sel : α → Option δ}
    {h : γ → δ → γ} (hg : ∀ s x, proj (g s x) = (sel x).elim (proj s) (h (proj s))) (l : List α)
    (s : β) : proj (l.foldl g s) = (l.filterMap sel).foldl h (proj s) := by
  induction l generalizing s with
  | nil => rfl
  | cons x l ih =>
    rw [List.foldl_cons, ih, hg]
    cases hx : sel x with
    | none => simp [hx]
    | some d => simp [hx]

theorem foldl_concat {α : Type*} (l acc : List α) :
    l.foldl (fun acc x => acc ++ [x]) acc = acc ++ l := by
  induction l generalizing acc with
  | nil => simp
  | cons x l ih => simp [ih]

theorem foldl_last {α : Type*} (l : List α) (s : α) :
    l.foldl (fun _ x => x) s = l.getLast?.getD s := by
  induction l generalizing s with
  | nil => rfl
  | cons x l ih => simp [ih, List.getLast?_cons]

/-! ## Optional bounds -/

section Tighter

variable {α : Type u}

/-- `b` bounds at least what `a` bounds, and at least as tightly. -/
def Tighter [LE α] (a b : Option α) : Prop := ∀ x, a = some x → ∃ y, b = some y ∧ y ≤ x

/-- The tighter of a bound and a new value. -/
def minMerge [LinearOrder α] (a : Option α) (n : α) : Option α :=
  some (match a with
    | none => n
    | some prev => min prev n)

/-- The first value given is kept. -/
def firstWins (a : Option α) (n : α) : Option α :=
  match a with
  | none => some n
  | some prev => some prev

theorem Tighter.refl [Preorder α] (a : Option α) : Tighter a a := fun x hx => ⟨x, hx, le_refl x⟩

theorem Tighter.trans [Preorder α] {a b c : Option α} (hab : Tighter a b) (hbc : Tighter b c) :
    Tighter a c := by
  intro x hx
  obtain ⟨y, hy, hyx⟩ := hab x hx
  obtain ⟨z, hz, hzy⟩ := hbc y hy
  exact ⟨z, hz, le_trans hzy hyx⟩

theorem Tighter.le [LE α] {a b : Option α} (h : Tighter a b) {x y : α} (ha : a = some x)
    (hb : b = some y) : y ≤ x := by
  obtain ⟨z, hz, hle⟩ := h x ha
  rw [hb] at hz
  cases hz
  exact hle

theorem tighter_minMerge [LinearOrder α] (a : Option α) (n : α) : Tighter a (minMerge a n) := by
  rintro x rfl
  exact ⟨min x n, rfl, min_le_left x n⟩

theorem firstWins_of_some {a : Option α} {x : α} (h : a = some x) (n : α) :
    firstWins a n = some x := by
  subst h; rfl

/-- The least element of a list. -/
def least [LinearOrder α] (l : List α) : Option α := l.foldl minMerge none

theorem foldl_minMerge_some [LinearOrder α] (l : List α) (a : α) :
    ∃ m, l.foldl minMerge (some a) = some m ∧ m ∈ a :: l ∧ ∀ x ∈ a :: l, m ≤ x := by
  induction l generalizing a with
  | nil => exact ⟨a, rfl, by simp, by simp⟩
  | cons b l ih =>
    obtain ⟨m, hm, hmem, hle⟩ := ih (min a b)
    have hmin : m ≤ min a b := hle _ (by simp)
    refine ⟨m, hm, ?_, ?_⟩
    · rcases List.mem_cons.1 hmem with rfl | hl
      · rcases le_total a b with hab | hab <;> simp [hab]
      · simp [hl]
    · intro x hx
      rcases List.mem_cons.1 hx with rfl | hx
      · exact le_trans hmin (min_le_left _ _)
      rcases List.mem_cons.1 hx with rfl | hx
      · exact le_trans hmin (min_le_right _ _)
      · exact hle x (by simp [hx])

theorem least_cons [LinearOrder α] (a : α) (l : List α) :
    ∃ m, least (a :: l) = some m ∧ m ∈ a :: l ∧ ∀ x ∈ a :: l, m ≤ x :=
  foldl_minMerge_some l a

/-- A list has a least element unless it is empty. -/
theorem exists_least [LinearOrder α] {l : List α} {x : α} (hx : x ∈ l) :
    ∃ m, least l = some m ∧ m ≤ x := by
  cases l with
  | nil => cases hx
  | cons a l =>
    obtain ⟨m, hm, -, hle⟩ := least_cons a l
    exact ⟨m, hm, hle x hx⟩

theorem least_eq_some [LinearOrder α] {l : List α} {m : α} :
    least l = some m ↔ m ∈ l ∧ ∀ x ∈ l, m ≤ x := by
  cases l with
  | nil => simp [least]
  | cons a l =>
    obtain ⟨m', hm', hmem, hle⟩ := least_cons a l
    rw [hm', Option.some.injEq]
    constructor
    · rintro rfl
      exact ⟨hmem, hle⟩
    · rintro ⟨hm, hlem⟩
      exact le_antisymm (hle m hm) (hlem m' hmem)

/-- What is below the least element is below all of them. -/
theorem lt_least_iff [LinearOrder α] {l : List α} {a : α} :
    (∀ m, least l = some m → a < m) ↔ ∀ x ∈ l, a < x := by
  constructor
  · intro h x hx
    obtain ⟨m, hm, hle⟩ := exists_least hx
    exact lt_of_lt_of_le (h m hm) hle
  · intro h m hm
    exact h m (least_eq_some.1 hm).1

theorem foldl_firstWins (l : List α) (a : Option α) : l.foldl firstWins a = a.or l.head? := by
  induction l generalizing a with
  | nil => simp
  | cons x l ih => cases a <;> simp [ih, firstWins]

end Tighter

end Entanglement.Lib
