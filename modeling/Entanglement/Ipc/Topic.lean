import Entanglement.Lib.Segments
import Mathlib.Data.List.Forall2

/-!
# Topics and their patterns (`entangle-ipc`, `topic.rs`)

A topic is a dotted name, and a subscriber filters by a pattern. `Topic::matches` does not compare lists
of segments: it strips a final `.**`, compares bytes when no wildcard is left, and walks the two sides
otherwise. What it decides is nevertheless a relation between the segments of the two
(`Matches`, `topic_matches_iff`).
-/

namespace Entanglement.Ipc

open Lib

inductive IpcError
  | invalidTopic (s : Text)
  deriving DecidableEq

def isTopicChar (c : Char) : Bool := c.isLower || c.isDigit || c == '.' || c == '-' || c == '_'

/-- The test of `Topic::new`. -/
def isTopic (s : Text) : Bool :=
  !(s.isEmpty || (s.splitOn '.').any List.isEmpty || !s.all isTopicChar)

structure Topic where
  str : Text
  valid : isTopic str = true
  deriving DecidableEq

def Topic.new (s : Text) : Except IpcError Topic :=
  if h : isTopic s = true then .ok ⟨s, h⟩ else .error (.invalidTopic s)

/-! ## Matching -/

/-- The loop over the segments of the pattern: the segments of the topic that are left, or nothing if
one did not match or the topic ran out. -/
def walk : List Bytes → List Bytes → Option (List Bytes)
  | [], top => some top
  | _ :: _, [] => none
  | p :: ps, t :: top => if p = [UInt8.ofNat '*'.toNat] ∨ p = t then walk ps top else none

/-- `Topic::matches` once a final `.**` is stripped. -/
def Topic.matchesPrefix (topic : Topic) (pre : Text) (openEnded : Bool) : Bool :=
  if !(Text.utf8 pre).contains (UInt8.ofNat '*'.toNat) then
    match topic.str.dropPrefix? pre with
    | some [] => true
    | some (c :: _) => openEnded && c == '.'
    | none => false
  else
    match walk ((Text.utf8 pre).splitOn (UInt8.ofNat '.'.toNat))
        ((Text.utf8 topic.str).splitOn (UInt8.ofNat '.'.toNat)) with
    | none => false
    | some rest => openEnded || rest.isEmpty

/-- `Topic::matches`. -/
def Topic.matchesPattern (topic : Topic) (pattern : Text) : Bool :=
  if pattern = "**" then true
  else
    match pattern.dropSuffix? ".**" with
    | some pre => topic.matchesPrefix pre true
    | none => topic.matchesPrefix pattern false

/-! ## What a pattern means -/

/-- A segment of a pattern stands for every segment, or for itself. -/
def SegmentMatches (p t : Text) : Prop := p = "*" ∨ p = t

/-- The meaning of a pattern, by its segments: everything; or some segments and then `**`; or as many
segments as the topic has. -/
def Matches (topic : Topic) (pattern : Text) : Prop :=
  pattern = "**" ∨
  (∃ front, pattern.splitOn '.' = front ++ ["**".toList] ∧
    front.length ≤ (topic.str.splitOn '.').length ∧
    List.Forall₂ SegmentMatches front ((topic.str.splitOn '.').take front.length)) ∨
  ((pattern.splitOn '.').length = (topic.str.splitOn '.').length ∧
    List.Forall₂ SegmentMatches (pattern.splitOn '.') (topic.str.splitOn '.'))

/-! ## Valid topics -/

theorem isTopic_iff {s : Text} :
    isTopic s = true ↔ s ≠ [] ∧ (∀ seg ∈ s.splitOn '.', seg ≠ []) ∧ ∀ c ∈ s, isTopicChar c = true := by
  simp [isTopic, and_assoc]

theorem Topic.star_not_mem (topic : Topic) : '*' ∉ topic.str := by
  intro h
  exact absurd ((isTopic_iff.1 topic.valid).2.2 _ h) (by decide)

theorem Topic.segment_ne_stars (topic : Topic) : ∀ seg ∈ topic.str.splitOn '.', '*' ∉ seg := by
  intro seg hseg hstar
  exact topic.star_not_mem ((mem_iff_exists_segment (by decide)).2 ⟨seg, hseg, hstar⟩)

/-! ## The walk -/

theorem walk_eq_some {ps ts rest : List Bytes} :
    walk ps ts = some rest ↔
      ∃ front, ts = front ++ rest ∧
        List.Forall₂ (fun p t => p = [UInt8.ofNat '*'.toNat] ∨ p = t) ps front := by
  induction ps generalizing ts with
  | nil =>
    rw [walk, Option.some.injEq]
    constructor
    · rintro rfl
      exact ⟨[], rfl, .nil⟩
    · rintro ⟨front, rfl, hfront⟩
      cases hfront
      rfl
  | cons p ps ih =>
    cases ts with
    | nil =>
      rw [walk]
      refine ⟨fun h => (nomatch h), ?_⟩
      rintro ⟨front, hts, hfront⟩
      cases hfront
      cases hts
    | cons t ts =>
      rw [walk]
      split
      · rename_i hp
        rw [ih]
        constructor
        · rintro ⟨front, rfl, hfront⟩
          exact ⟨t :: front, rfl, .cons hp hfront⟩
        · rintro ⟨front, hts, hfront⟩
          cases hfront with
          | cons _ hfront =>
            cases hts
            exact ⟨_, rfl, hfront⟩
      · rename_i hp
        refine ⟨fun h => (nomatch h), ?_⟩
        rintro ⟨front, hts, hfront⟩
        cases hfront with
        | cons hpt _ =>
          cases hts
          exact absurd hpt hp

variable {ps ts : List Text}

/-- Segments match as bytes as they do as text. -/
theorem forall₂_utf8 :
    List.Forall₂ (fun p t => p = [UInt8.ofNat '*'.toNat] ∨ p = t) (ps.map Text.utf8)
      (ts.map Text.utf8) ↔ List.Forall₂ SegmentMatches ps ts := by
  have hstar : [UInt8.ofNat '*'.toNat] = Text.utf8 "*" := by decide
  rw [List.forall₂_map_left_iff, List.forall₂_map_right_iff, hstar]
  simp only [Text.utf8_injective.eq_iff]
  rfl

/-! ## The two paths -/

/-- The segments match the first segments of the topic, and `rest` are the others. -/
def MatchesFront (ps ts rest : List Text) : Prop :=
  ∃ front, ts = front ++ rest ∧ List.Forall₂ SegmentMatches ps front

theorem walk_utf8 (pre : Text) (topic : Topic) (openEnded : Bool) :
    (match walk ((Text.utf8 pre).splitOn (UInt8.ofNat '.'.toNat))
        ((Text.utf8 topic.str).splitOn (UInt8.ofNat '.'.toNat)) with
      | none => false
      | some rest => openEnded || rest.isEmpty) = true ↔
      ∃ rest, MatchesFront (pre.splitOn '.') (topic.str.splitOn '.') rest ∧
        (openEnded = true ∨ rest = []) := by
  rw [splitOn_utf8 (by decide), splitOn_utf8 (by decide)]
  constructor
  · intro h
    split at h
    · cases h
    · rename_i rest hwalk
      obtain ⟨front, hts, hfront⟩ := walk_eq_some.1 hwalk
      obtain ⟨front, rest, hcut, rfl, rfl⟩ := List.map_eq_append_iff.1 hts
      refine ⟨rest, ⟨front, hcut, forall₂_utf8.1 hfront⟩, ?_⟩
      simpa using h
  · rintro ⟨rest, ⟨front, hts, hfront⟩, hrest⟩
    have hwalk : walk ((pre.splitOn '.').map Text.utf8)
        (front.map Text.utf8 ++ rest.map Text.utf8) = some (rest.map Text.utf8) :=
      walk_eq_some.2 ⟨_, rfl, forall₂_utf8.2 hfront⟩
    rw [hts, List.map_append, hwalk]
    simpa using hrest

/-- Without a wildcard the segments match only themselves. -/
theorem forall₂_of_not_mem (h : ∀ p ∈ ps, '*' ∉ p) :
    List.Forall₂ SegmentMatches ps ts ↔ ps = ts := by
  constructor
  · intro hps
    induction hps with
    | nil => rfl
    | @cons p t ps ts hp hps ih =>
      have hpt : p = t := by
        rcases hp with rfl | hp
        · exact absurd (by decide) (h _ List.mem_cons_self)
        · exact hp
      rw [hpt, ih fun q hq => h q (List.mem_cons_of_mem _ hq)]
  · rintro rfl
    exact List.forall₂_same.2 fun p _ => .inr rfl

theorem matchesFront_of_not_mem {pre : Text} (h : '*' ∉ pre) (topic : Topic) (openEnded : Bool) :
    (∃ rest, MatchesFront (pre.splitOn '.') (topic.str.splitOn '.') rest ∧
      (openEnded = true ∨ rest = [])) ↔
      topic.str = pre ∨ (openEnded = true ∧ ∃ more, topic.str = pre ++ '.' :: more) := by
  have hpre : ∀ p ∈ pre.splitOn '.', '*' ∉ p := fun p hp hstar =>
    h ((mem_iff_exists_segment (by decide)).2 ⟨p, hp, hstar⟩)
  constructor
  · rintro ⟨rest, ⟨front, hts, hfront⟩, hrest⟩
    rw [forall₂_of_not_mem hpre] at hfront
    subst hfront
    by_cases hnil : rest = []
    · subst hnil
      rw [List.append_nil] at hts
      exact .inl ((splitOn_inj '.').1 hts)
    · obtain ⟨a, more, hcut, ha, -⟩ := (splitOn_eq_append_iff splitOn_ne_nil hnil).1 hts
      rw [(splitOn_inj '.').1 ha] at hcut
      exact .inr ⟨hrest.resolve_right hnil, more, hcut⟩
  · rintro (htopic | ⟨hopen, more, htopic⟩)
    · refine ⟨[], ⟨pre.splitOn '.', by rw [htopic, List.append_nil], ?_⟩, .inr rfl⟩
      exact (forall₂_of_not_mem hpre).2 rfl
    · refine ⟨more.splitOn '.', ⟨pre.splitOn '.', by rw [htopic, splitOn_append_cons], ?_⟩, .inl hopen⟩
      exact (forall₂_of_not_mem hpre).2 rfl

/-- Both paths decide whether the segments match the first segments of the topic. -/
theorem matchesPrefix_iff (topic : Topic) (pre : Text) (openEnded : Bool) :
    topic.matchesPrefix pre openEnded = true ↔
      ∃ rest, MatchesFront (pre.splitOn '.') (topic.str.splitOn '.') rest ∧
        (openEnded = true ∨ rest = []) := by
  unfold Topic.matchesPrefix
  have hstar : (Text.utf8 pre).contains (UInt8.ofNat '*'.toNat) = true ↔ '*' ∈ pre := by
    rw [List.contains_iff_mem, Text.byte_mem_utf8 (by decide)]
  split
  · rename_i hfast
    have hfree : '*' ∉ pre := by
      rw [← hstar]
      simpa using hfast
    rw [matchesFront_of_not_mem hfree]
    cases hdrop : topic.str.dropPrefix? pre with
    | none =>
      refine ⟨fun h => (nomatch h), fun h => ?_⟩
      have hno : ∀ rest, topic.str ≠ pre ++ rest := fun rest hrest => by
        have := List.dropPrefix?_eq_some_iff.2 ⟨pre, hrest, beq_self_eq_true pre⟩
        rw [hdrop] at this
        cases this
      rcases h with htopic | ⟨-, more, htopic⟩
      · exact absurd (htopic.trans (List.append_nil pre).symm) (hno [])
      · exact absurd htopic (hno _)
    | some rest =>
      obtain ⟨pre', htopic, hpre⟩ := List.dropPrefix?_eq_some_iff.1 hdrop
      rw [eq_of_beq hpre] at htopic
      cases rest with
      | nil => exact ⟨fun _ => .inl (by rw [htopic, List.append_nil]), fun _ => rfl⟩
      | cons c more =>
        rw [htopic]
        simp only [Bool.and_eq_true, beq_iff_eq, List.append_right_eq_self, List.append_cancel_left_eq,
          List.cons.injEq, exists_and_left, exists_eq', and_true, reduceCtorEq, false_or]
  · exact walk_utf8 pre topic openEnded

/-! ## The result -/

/-- The segments match the first ones of the topic, if it has that many. -/
theorem exists_matchesFront :
    (∃ rest, MatchesFront ps ts rest) ↔
      ps.length ≤ ts.length ∧ List.Forall₂ SegmentMatches ps (ts.take ps.length) := by
  constructor
  · rintro ⟨rest, front, rfl, hfront⟩
    have hlen := hfront.length_eq
    rw [hlen, List.take_left]
    exact ⟨by rw [List.length_append]; omega, hfront⟩
  · rintro ⟨-, hfront⟩
    exact ⟨ts.drop ps.length, ts.take ps.length, (List.take_append_drop _ _).symm, hfront⟩

theorem matchesFront_nil : MatchesFront ps ts [] ↔ List.Forall₂ SegmentMatches ps ts := by
  simp [MatchesFront]

/-- Every segment of a matching pattern is a wildcard, or a segment of the topic. -/
theorem mem_of_forall₂ (h : List.Forall₂ SegmentMatches ps ts) {p : Text} (hp : p ∈ ps) :
    p = "*" ∨ p ∈ ts := by
  induction h with
  | nil => cases hp
  | @cons q t ps ts hq _ ih =>
    rcases List.mem_cons.1 hp with rfl | hp
    · rcases hq with rfl | rfl
      · exact .inl rfl
      · exact .inr List.mem_cons_self
    · exact (ih hp).imp_right (List.mem_cons_of_mem _)

/-- No segment of a topic is matched by `**`. -/
theorem not_forall₂_stars (topic : Topic) (front : List Text) :
    ¬ List.Forall₂ SegmentMatches (front ++ ["**".toList]) (topic.str.splitOn '.') := by
  intro h
  rcases mem_of_forall₂ h (List.mem_append_right _ (List.mem_singleton_self _)) with hstar | hseg
  · exact absurd hstar (by decide)
  · exact topic.segment_ne_stars _ hseg (by decide)

/-- The last segment of a pattern is `**` when the pattern is, or ends in `.**`. -/
theorem splitOn_eq_concat_stars {pattern : Text} {front : List Text}
    (h : pattern.splitOn '.' = front ++ ["**".toList]) :
    pattern = "**" ∨ ∃ pre, pattern = pre ++ ".**" ∧ pre.splitOn '.' = front := by
  by_cases hfront : front = []
  · subst hfront
    have hwhole : pattern.splitOn '.' = "**".toList.splitOn '.' :=
      h.trans (splitOn_of_not_mem (by decide)).symm
    exact .inl ((splitOn_inj '.').1 hwhole)
  · obtain ⟨pre, last, hcut, hpre, hlast⟩ :=
      (splitOn_eq_append_iff hfront (List.cons_ne_nil _ _)).1 h
    have hstars : last.splitOn '.' = "**".toList.splitOn '.' :=
      hlast.trans (splitOn_of_not_mem (by decide)).symm
    rw [(splitOn_inj '.').1 hstars] at hcut
    exact .inr ⟨pre, hcut, hpre⟩

/-- **Matching is matching of segments.** -/
theorem topic_matches_iff (topic : Topic) (pattern : Text) :
    topic.matchesPattern pattern = true ↔ Matches topic pattern := by
  unfold Topic.matchesPattern
  by_cases hall : pattern = "**"
  · rw [if_pos hall]
    exact ⟨fun _ => .inl hall, fun _ => rfl⟩
  · rw [if_neg hall]
    cases hdrop : pattern.dropSuffix? ".**" with
    | some pre =>
      obtain ⟨stars, hpattern, hstars⟩ := List.dropSuffix?_eq_some_iff.1 hdrop
      rw [eq_of_beq hstars] at hpattern
      have hsegs : pattern.splitOn '.' = pre.splitOn '.' ++ ["**".toList] := by
        rw [hpattern]
        exact (splitOn_append_cons pre _).trans
          (congrArg _ (splitOn_of_not_mem (by decide)))
      rw [matchesPrefix_iff]
      simp only [true_or, and_true, exists_matchesFront]
      constructor
      · intro h
        exact .inr (.inl ⟨_, hsegs, h⟩)
      · rintro (h | ⟨front, hfront, h⟩ | ⟨-, h⟩)
        · exact absurd h hall
        · rw [hsegs] at hfront
          rwa [(List.append_inj' hfront rfl).1]
        · rw [hsegs] at h
          exact absurd h (not_forall₂_stars topic _)
    | none =>
      rw [matchesPrefix_iff]
      simp only [Bool.false_eq_true, false_or, exists_eq_right, matchesFront_nil]
      constructor
      · intro h
        exact .inr (.inr ⟨h.length_eq, h⟩)
      · rintro (h | ⟨front, hfront, -⟩ | ⟨-, h⟩)
        · exact absurd h hall
        · rcases splitOn_eq_concat_stars hfront with h | ⟨pre, hpre, -⟩
          · exact absurd h hall
          · have := List.dropSuffix?_eq_some_iff.2 ⟨_, hpre, beq_self_eq_true ".**".toList⟩
            rw [hdrop] at this
            cases this
        · exact h

end Entanglement.Ipc
