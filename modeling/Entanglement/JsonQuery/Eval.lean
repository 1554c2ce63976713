import Entanglement.JsonQuery.Path
import Entanglement.Lib.Doc
import Mathlib.Data.List.Sort

/-!
# The evaluation of a path

`eval` keeps a list of the values reached so far and advances all of them by one segment at a time.
Until the first wildcard there is one value, and a lookup that fails is an error; after it there may
be any number, and values without the key, the index or children are skipped. What it computes is
`strict` lookup up to the first wildcard and `reach`, the values below in depth-first order, after it.
-/

namespace Entanglement.JsonQuery

open Lib

/-! ## The loop over the segments -/

def Segment.render : Segment → Text
  | .key k => '.' :: k
  | .index i => '[' :: decimal i ++ [']']
  | .wildcard => "[*]"

def renderPrefix (segs : List Segment) (n : Nat) : Text := '$' :: (segs.take n).flatMap Segment.render

def typeName : JsonValue → Text
  | .scalar .null => "null"
  | .scalar (.boolean _) => "boolean"
  | .scalar (.integer _) => "number"
  | .scalar (.float _) => "number"
  | .string _ => "string"
  | .array _ => "array"
  | .table _ => "object"

section Loop
variable (T : Target)

/-- What the error about a missing key says about the keys that there are. -/
def keysHint (entries : List (Text × JsonValue)) : Text :=
  let keys := (entries.map Prod.fst).mergeSort
  if keys = [] then "the object is empty"
  else "available keys: " ++ ", ".toList.intercalate keys

/-- What one value contributes to the next list, at the `n`-th segment `seg` of `segs`. -/
def advance (segs : List Segment) (n : Nat) (fanned : Bool) (seg : Segment) (v : JsonValue) :
    Except Error (List JsonValue) :=
  match seg with
  | .key k =>
    match v with
    | .table entries =>
      match entries.lookup k with
      | some child => .ok [child]
      | none =>
        if fanned then .ok []
        else .error (.noMatch (renderPrefix segs n ++ " has no key " ++ T.debugStr k ++
          " (" ++ keysHint entries ++ ")"))
    | other =>
      if fanned then .ok []
      else .error (.noMatch ("cannot read key " ++ T.debugStr k ++ ": " ++
        renderPrefix segs n ++ " is a " ++ typeName other ++ ", not an object"))
  | .index idx =>
    match v with
    | .array arr =>
      match arr[idx]? with
      | some child => .ok [child]
      | none =>
        if fanned then .ok []
        else .error (.noMatch ("index " ++ decimal idx ++ " is out of range: " ++
          renderPrefix segs n ++ " has " ++ decimal arr.length ++ " element(s)"))
    | other =>
      if fanned then .ok []
      else .error (.noMatch ("cannot index [" ++ decimal idx ++ "]: " ++
        renderPrefix segs n ++ " is a " ++ typeName other ++ ", not an array"))
  | .wildcard =>
    match v with
    | .array arr => .ok arr
    | .table entries => .ok (entries.map Prod.snd)
    | other =>
      if fanned then .ok []
      else .error (.noMatch ("cannot expand '*': " ++ renderPrefix segs n ++
        " is a " ++ typeName other ++ ", not an array or object"))

/-- The inner loop: the next list, from the values of the current one in their order. -/
def advanceAll (segs : List Segment) (n : Nat) (fanned : Bool) (seg : Segment)
    (current : List JsonValue) : Except Error (List JsonValue) :=
  current.foldlM (fun next v => (advance T segs n fanned seg v).map (next ++ ·)) []

/-- The outer loop, from the `n`-th segment on: the values reached and whether there was a
wildcard. -/
def walk (segs : List Segment) : Nat → Bool → List JsonValue → List Segment →
    Except Error (List JsonValue × Bool)
  | _, fanned, current, [] => .ok (current, fanned)
  | n, fanned, current, seg :: rest => do
    let next ← advanceAll T segs n fanned seg current
    walk segs (n + 1) (fanned || decide (seg = .wildcard)) next rest

def eval (root : JsonValue) (segs : List Segment) : Except Error JsonValue := do
  let (current, fanned) ← walk T segs 0 false [root] segs
  if fanned then .ok (.array current)
  else
    match current with
    | v :: _ => .ok v
    | [] => .error (.noMatch (renderPrefix segs segs.length ++ " matched nothing"))

end Loop

/-! ## What a path means -/

/-- Strict lookup of a key or an index. -/
def child : Segment → JsonValue → Option JsonValue
  | .key k, .table entries => entries.lookup k
  | .index i, .array arr => arr[i]?
  | _, _ => none

/-- The elements of an array and the values of an object, in their order. -/
def children : JsonValue → Option (List JsonValue)
  | .array arr => some arr
  | .table entries => some (entries.map Prod.snd)
  | _ => none

/-- The value that strict lookups reach. -/
def strict (v : JsonValue) : List Segment → Option JsonValue
  | [] => some v
  | seg :: segs => (child seg v).bind fun u => strict u segs

/-- What a segment reaches from a value, where a value without it is skipped. -/
def below : Segment → JsonValue → List JsonValue
  | .wildcard, v => (children v).getD []
  | seg, v => (child seg v).toList

/-- All values that the segments reach from `v`, depth first. -/
def reach : List Segment → JsonValue → List JsonValue
  | [], v => [v]
  | seg :: segs, v => (below seg v).flatMap (reach segs)

/-- Strict lookup up to the first wildcard, and from there on an array of all values reached. -/
def meaning (v : JsonValue) : List Segment → Option JsonValue
  | [] => some v
  | .wildcard :: segs => (children v).map fun vs => .array (vs.flatMap (reach segs))
  | seg :: segs => (child seg v).bind fun u => meaning u segs

theorem meaning_cons {seg : Segment} (h : seg ≠ .wildcard) (v : JsonValue) (segs : List Segment) :
    meaning v (seg :: segs) = (child seg v).bind fun u => meaning u segs := by
  cases seg with
  | key k => rfl
  | index i => rfl
  | wildcard => exact absurd rfl h

/-- Segments before the first wildcard are strict. -/
theorem meaning_append {before : List Segment} (h : .wildcard ∉ before) (v : JsonValue)
    (after : List Segment) :
    meaning v (before ++ after) = (strict v before).bind fun u => meaning u after := by
  induction before generalizing v with
  | nil => rfl
  | cons seg before ih =>
    rw [List.mem_cons, not_or] at h
    rw [List.cons_append, meaning_cons (Ne.symm h.1), strict, Option.bind_assoc]
    exact congrArg _ (funext fun u => ih h.2 u)

theorem meaning_of_not_mem {segs : List Segment} (h : .wildcard ∉ segs) (v : JsonValue) :
    meaning v segs = strict v segs := by
  have happend := meaning_append h v []
  rw [List.append_nil] at happend
  rw [happend]
  exact Option.bind_fun_some _

/-! ## One segment -/

section Steps
variable {T : Target} {all : List Segment} {n : Nat}

/-- After a wildcard nothing is an error. -/
theorem advance_fanned (seg : Segment) (v : JsonValue) :
    advance T all n true seg v = .ok (below seg v) := by
  cases seg with
  | key k =>
    cases v with
    | table entries =>
      simp only [advance, below, child]
      cases entries.lookup k <;> rfl
    | _ => rfl
  | index i =>
    cases v with
    | array arr =>
      simp only [advance, below, child]
      cases arr[i]? <;> rfl
    | _ => rfl
  | wildcard => cases v <;> rfl

/-- Before it, a lookup that fails is one. -/
theorem advance_strict {seg : Segment} (h : seg ≠ .wildcard) (v : JsonValue) :
    (advance T all n false seg v).toOption = (child seg v).map fun u => [u] := by
  cases seg with
  | key k =>
    cases v with
    | table entries =>
      simp only [advance, child]
      cases entries.lookup k <;> rfl
    | _ => rfl
  | index i =>
    cases v with
    | array arr =>
      simp only [advance, child]
      cases arr[i]? <;> rfl
    | _ => rfl
  | wildcard => exact absurd rfl h

theorem advance_wildcard (v : JsonValue) :
    (advance T all n false .wildcard v).toOption = children v := by
  cases v <;> rfl

theorem advanceAll_singleton (fanned : Bool) (seg : Segment) (v : JsonValue) :
    advanceAll T all n fanned seg [v] = advance T all n fanned seg v := by
  rw [advanceAll, List.foldlM_cons]
  cases advance T all n fanned seg v <;> rfl

theorem advanceAll_fanned (seg : Segment) (current : List JsonValue) :
    advanceAll T all n true seg current = .ok (current.flatMap (below seg)) := by
  have hfold : ∀ acc : List JsonValue,
      current.foldlM (fun next v => (advance T all n true seg v).map (next ++ ·)) acc =
        .ok (acc ++ current.flatMap (below seg)) := by
    induction current with
    | nil => intro acc; simp [pure, Except.pure]
    | cons v current ih =>
      intro acc
      rw [List.foldlM_cons, advance_fanned, List.flatMap_cons, ← List.append_assoc]
      exact ih (acc ++ below seg v)
  exact hfold []

/-! ## All segments -/

/-- Once there was a wildcard, the lists grow to what the segments reach from each value. -/
theorem walk_fanned (current : List JsonValue) (segs : List Segment) :
    walk T all n true current segs = .ok (current.flatMap (reach segs), true) := by
  induction segs generalizing n current with
  | nil =>
    have hself : current.flatMap (reach []) = current := List.flatMap_singleton' current
    rw [walk, hself]
  | cons seg segs ih =>
    rw [walk, advanceAll_fanned]
    refine (ih _).trans ?_
    rw [List.flatMap_assoc]
    rfl

/-- The end of `eval`. -/
def finish : List JsonValue × Bool → Option JsonValue
  | (current, true) => some (.array current)
  | (current, false) => current.head?

theorem walk_finish (v : JsonValue) (segs : List Segment) :
    ((walk T all n false [v] segs).toOption.bind finish) = meaning v segs := by
  induction segs generalizing n v with
  | nil => rfl
  | cons seg segs ih =>
    rw [walk, except_toOption_bind, advanceAll_singleton, Option.bind_assoc]
    by_cases hseg : seg = .wildcard
    · subst hseg
      rw [advance_wildcard, meaning]
      cases children v with
      | none => rfl
      | some vs =>
        simp only [Option.bind_some, Option.map_some, decide_true, Bool.or_true, walk_fanned]
        rfl
    · rw [advance_strict hseg, meaning_cons hseg]
      cases child seg v with
      | none => rfl
      | some u =>
        simp only [Option.map_some, Option.bind_some, hseg, decide_false, Bool.or_false]
        exact ih u

/-- Without a wildcard there is one value, so that something is always matched. -/
theorem walk_single {v : JsonValue} {segs : List Segment} {current : List JsonValue}
    (h : walk T all n false [v] segs = .ok (current, false)) : ∃ u, current = [u] := by
  induction segs generalizing n v with
  | nil =>
    cases h
    exact ⟨v, rfl⟩
  | cons seg segs ih =>
    rw [walk, except_bind_eq_ok, advanceAll_singleton] at h
    obtain ⟨next, hnext, h⟩ := h
    by_cases hseg : seg = .wildcard
    · subst hseg
      simp only [decide_true, Bool.or_true, walk_fanned] at h
      cases h
    · have hsome := congrArg Except.toOption hnext
      rw [advance_strict hseg] at hsome
      obtain ⟨u, -, rfl⟩ := Option.map_eq_some_iff.1 hsome
      simp only [hseg, decide_false, Bool.or_false] at h
      exact ih h

end Steps

theorem eval_toOption (T : Target) (root : JsonValue) (segs : List Segment) :
    (eval T root segs).toOption = meaning root segs := by
  have hwalk : ((walk T segs 0 false [root] segs).toOption.bind finish) = meaning root segs :=
    walk_finish root segs
  rw [← hwalk, eval, except_toOption_bind]
  congr 1
  funext ⟨current, fanned⟩
  cases fanned with
  | true => rfl
  | false => cases current <;> rfl

/-- Evaluation is strict lookup up to the first wildcard and collects everything that is reached from
there; the branch for no match is dead, and strict segments can be evaluated by themselves first. -/
theorem eval_denotes (T : Target) (root : JsonValue) (segs : List Segment) :
    (.wildcard ∉ segs → (eval T root segs).toOption = strict root segs) ∧
    (∀ before after, segs = before ++ .wildcard :: after → .wildcard ∉ before →
      (eval T root segs).toOption = (strict root before).bind fun v =>
        (children v).map fun vs => .array (vs.flatMap (reach after))) ∧
    (∀ current, walk T segs 0 false [root] segs = .ok (current, false) → current ≠ []) ∧
    (∀ s t u, .wildcard ∉ s → eval T root s = .ok u →
      (eval T root (s ++ t)).toOption = (eval T u t).toOption) := by
  refine ⟨?_, ?_, ?_, ?_⟩
  · intro h
    rw [eval_toOption, meaning_of_not_mem h]
  · rintro before after rfl h
    rw [eval_toOption, meaning_append h]
    rfl
  · intro current h
    obtain ⟨u, rfl⟩ := walk_single h
    exact List.cons_ne_nil _ _
  · intro s t u hs hu
    have hstrict : strict root s = some u := by
      rw [← meaning_of_not_mem hs, ← eval_toOption T, hu]
      rfl
    rw [eval_toOption, eval_toOption, meaning_append hs, hstrict, Option.bind_some]

end Entanglement.JsonQuery
