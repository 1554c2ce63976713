import Mathlib.Data.Option.Basic
import Mathlib.Data.List.Basic

/-!
# Views that follow a feed of events

A view keeps a value for every key. An event writes some keys and leaves the others, and the view is
to become equal to a target, of which each event reports one change. The feed keeps the events that
were not read yet in order, but may lose the oldest of them; the view is then rebuilt from the target
and reads on.

* `Follows`: the view becomes the target once the retained events are read. Reading keeps it
  (`Follows.read`), and so does a change that is reported (`Follows.send`).
* `Faithful`: no retained event leads away from the target. It survives losses (`Faithful.lose`), and
  a view rebuilt from the target follows (`Faithful.follows`).
-/

namespace Entanglement.Lib.Feed

variable {κ ε ρ : Type} (writes : ε → κ → Option ρ)

/-- The view after an event. -/
def apply (view : κ → ρ) (e : ε) : κ → ρ := fun k => (writes e k).getD (view k)

/-- The last value that the events write for a key. -/
def net (k : κ) : List ε → Option ρ
  | [] => none
  | e :: es => (net k es).or (writes e k)

/-- The view that is reached once the events are read. -/
def Follows (target view : κ → ρ) (es : List ε) : Prop :=
  ∀ k, (net writes k es).getD (view k) = target k

/-- What the events write last is what the target holds. -/
def Faithful (target : κ → ρ) (es : List ε) : Prop :=
  ∀ k v, net writes k es = some v → v = target k

variable {writes} {target target' view : κ → ρ} {e : ε} {es : List ε}

/-- The last event that writes to a key decides. -/
theorem net_concat (k : κ) : net writes k (es ++ [e]) = (writes e k).or (net writes k es) := by
  induction es with
  | nil => simp [net]
  | cons e' es ih => rw [List.cons_append, net, net, ih, Option.or_assoc]

theorem Follows.eq (h : Follows writes target view []) : view = target := funext h

/-- Reading an event keeps the view on its way to the target. -/
theorem Follows.read (h : Follows writes target view (e :: es)) :
    Follows writes target (apply writes view e) es := by
  intro k
  have hk := h k
  rw [net] at hk
  rw [← hk, apply]
  cases net writes k es <;> simp

/-- So does sending one for each change of the target. -/
theorem Follows.send (h : Follows writes target view es) (hchange : target' = apply writes target e) :
    Follows writes target' view (es ++ [e]) := by
  intro k
  rw [net_concat, hchange, apply]
  cases he : writes e k with
  | none => simpa using h k
  | some v => simp

theorem Faithful.nil : Faithful writes target [] := nofun

theorem Faithful.send (h : Faithful writes target es) (hchange : target' = apply writes target e) :
    Faithful writes target' (es ++ [e]) := by
  intro k v hv
  rw [net_concat] at hv
  rw [hchange, apply]
  cases he : writes e k with
  | none =>
    rw [he, Option.none_or] at hv
    simpa using h k v hv
  | some w =>
    rw [he, Option.some_or] at hv
    exact (Option.some.inj hv).symm

/-- Losing the oldest event leaves the rest faithful. -/
theorem Faithful.lose (h : Faithful writes target (e :: es)) : Faithful writes target es := by
  intro k v hv
  refine h k v ?_
  rw [net, hv, Option.some_or]

theorem Faithful.follows (h : Faithful writes target es) : Follows writes target target es := by
  intro k
  cases hv : net writes k es with
  | none => rfl
  | some v => exact h k v hv

end Entanglement.Lib.Feed
