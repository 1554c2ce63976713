import Entanglement.Ipc.Topic

/-!
# Patterns of subscribers (`entangle-ipc`, `topic.rs` and `bus.rs`)

`try_subscribe_topic` validates a pattern, so that a subscriber is not left waiting for topics that do
not exist. The validation checks the characters, the segments and the place of `**`; but a segment that
mixes `*` with other characters passes it, and is a literal that no topic can have. So a validated
pattern matches some topic exactly if its stars are whole segments (`exists_matches_iff`).
-/

namespace Entanglement.Ipc

open Lib

def isPatternChar (c : Char) : Bool := isTopicChar c || c == '*'

/-- `Topic::validate_pattern`. -/
def validatePattern (pattern : Text) : Except IpcError Unit :=
  if pattern.isEmpty then .error (.invalidTopic pattern)
  else if !pattern.all isPatternChar then .error (.invalidTopic pattern)
  else
    let segs := pattern.splitOn '.'
    if segs.any List.isEmpty then .error (.invalidTopic pattern)
    else
      match segs.findIdx? fun seg => seg = "**".toList with
      | some pos => if pos ≠ segs.length - 1 then .error (.invalidTopic pattern) else .ok ()
      | none => .ok ()

/-- A subscriber, by its filter. -/
structure Subscriber where
  filter : Option Text
  deriving DecidableEq

/-- The test of `Subscriber::recv` for an envelope with this topic. -/
def Subscriber.receives (s : Subscriber) (topic : Topic) : Bool :=
  match s.filter with
  | none => true
  | some pattern => topic.matchesPattern pattern

def trySubscribeTopic (pattern : Text) : Except IpcError Subscriber := do
  validatePattern pattern
  pure ⟨some pattern⟩

/-! ## What is validated, and what is needed -/

/-- The characters of patterns, no empty segment, and `**` nowhere but at the end. -/
structure WellFormed (pattern : Text) : Prop where
  chars : ∀ c ∈ pattern, isPatternChar c = true
  segments : ∀ seg ∈ pattern.splitOn '.', seg ≠ []
  stars : "**".toList ∉ (pattern.splitOn '.').dropLast

/-- A segment with a star in it is `*` or `**`. -/
def WholeStars (pattern : Text) : Prop :=
  ∀ seg ∈ pattern.splitOn '.', '*' ∈ seg → seg = "*" ∨ seg = "**"

/-- The first element of a kind is the last element, or there is none. -/
theorem findIdx?_last {α : Type} {p : α → Bool} {xs : List α} (hxs : xs ≠ []) :
    (∀ pos, xs.findIdx? p = some pos → pos = xs.length - 1) ↔ ∀ x ∈ xs.dropLast, p x = false := by
  have hpos : 0 < xs.length := List.length_pos_iff.2 hxs
  constructor
  · intro h x hx
    obtain ⟨i, hi, rfl⟩ := List.mem_iff_getElem.1 hx
    rw [List.length_dropLast] at hi
    rw [List.getElem_dropLast]
    by_contra hfalse
    have hp : p xs[i] = true := Bool.not_eq_false _ ▸ hfalse
    have hfound : (xs.findIdx? p).isSome = true :=
      List.findIdx?_isSome.trans (List.any_eq_true.2 ⟨_, List.getElem_mem _, hp⟩)
    obtain ⟨pos, hfind⟩ := Option.isSome_iff_exists.1 hfound
    obtain ⟨hlt, -, hfirst⟩ := List.findIdx?_eq_some_iff_getElem.1 hfind
    have hlast := h pos hfind
    exact hfirst i (by omega) hp
  · intro h pos hfind
    obtain ⟨hlt, hp, -⟩ := List.findIdx?_eq_some_iff_getElem.1 hfind
    by_contra hne
    have hmem : xs[pos] ∈ xs.dropLast := by
      rw [List.mem_iff_getElem]
      exact ⟨pos, by rw [List.length_dropLast]; omega, List.getElem_dropLast _⟩
    rw [h _ hmem] at hp
    cases hp

variable {pattern : Text}

theorem validatePattern_iff : validatePattern pattern = .ok () ↔ WellFormed pattern := by
  have hne : pattern.splitOn '.' ≠ [] := splitOn_ne_nil
  have hstars := findIdx?_last (p := fun seg => decide (seg = "**".toList)) hne
  unfold validatePattern
  by_cases hempty : pattern = []
  · subst hempty
    refine ⟨fun h => (nomatch h), fun h => ?_⟩
    exact absurd rfl (h.segments [] (by decide))
  rw [if_neg (by simpa using hempty)]
  by_cases hchars : ∀ c ∈ pattern, isPatternChar c = true
  · rw [if_neg (by simpa using hchars)]
    dsimp only
    by_cases hsegs : [] ∈ pattern.splitOn '.'
    · rw [if_pos (by simpa using hsegs)]
      refine ⟨fun h => (nomatch h), fun h => ?_⟩
      exact absurd rfl (h.segments [] hsegs)
    · rw [if_neg (by simpa using hsegs)]
      have hmem : "**".toList ∉ (pattern.splitOn '.').dropLast ↔
          ∀ pos, (pattern.splitOn '.').findIdx? (fun seg => seg = "**".toList) = some pos →
            pos = (pattern.splitOn '.').length - 1 := by
        rw [hstars]
        simp only [decide_eq_false_iff_not]
        exact ⟨fun h seg hseg heq => h (heq ▸ hseg), fun h hseg => h _ hseg rfl⟩
      have hwf : WellFormed pattern ↔ "**".toList ∉ (pattern.splitOn '.').dropLast :=
        ⟨WellFormed.stars, fun h => ⟨hchars, fun seg hseg hnil => hsegs (hnil ▸ hseg), h⟩⟩
      rw [hwf, hmem]
      split
      · rename_i pos hpos
        simp only [hpos, Option.some.injEq, forall_eq']
        split
        · rename_i hlast
          exact ⟨fun h => (nomatch h), fun h => absurd h hlast⟩
        · rename_i hlast
          exact ⟨fun _ => not_not.1 hlast, fun _ => rfl⟩
      · rename_i hnone
        rw [hnone]
        exact ⟨fun _ pos h => (nomatch h), fun _ => rfl⟩
  · rw [if_pos (by simpa using hchars)]
    exact ⟨fun h => (nomatch h), fun h => absurd h.chars hchars⟩

/-! ## Patterns that match some topic -/

/-- A segment of a topic that the segment of a pattern matches. -/
def fill (seg : Text) : Text := if '*' ∈ seg then ['a'] else seg

theorem fill_spec (h : WellFormed pattern) {seg : Text} (hseg : seg ∈ pattern.splitOn '.') :
    fill seg ≠ [] ∧ '.' ∉ fill seg ∧ ∀ c ∈ fill seg, isTopicChar c = true := by
  unfold fill
  split
  · refine ⟨by decide, by decide, fun c hc => ?_⟩
    rw [List.mem_singleton.1 hc]
    decide
  · rename_i hstar
    refine ⟨h.segments seg hseg, not_mem_of_mem_splitOn hseg, ?_⟩
    intro c hc
    have hdot : c ≠ '.' := fun hdot => not_mem_of_mem_splitOn hseg (hdot ▸ hc)
    have hchar := h.chars c ((mem_iff_exists_segment hdot).2 ⟨seg, hseg, hc⟩)
    have hne : c ≠ '*' := fun heq => hstar (heq ▸ hc)
    simpa [isPatternChar, hne] using hchar

/-- A topic with a matching segment for each segment of the pattern. -/
theorem exists_filled (h : WellFormed pattern) :
    ∃ topic : Topic, topic.str.splitOn '.' = (pattern.splitOn '.').map fill := by
  have hspec : ∀ seg ∈ (pattern.splitOn '.').map fill,
      seg ≠ [] ∧ '.' ∉ seg ∧ ∀ c ∈ seg, isTopicChar c = true := by
    intro seg hseg
    obtain ⟨p, hp, rfl⟩ := List.mem_map.1 hseg
    exact fill_spec h hp
  have hne : (pattern.splitOn '.').map fill ≠ [] := fun hnil => splitOn_ne_nil (List.map_eq_nil_iff.1 hnil)
  have hsplit := List.splitOn_intercalate '.' (fun seg hseg => (hspec seg hseg).2.1) hne
  generalize ['.'].intercalate ((pattern.splitOn '.').map fill) = str at hsplit
  refine ⟨⟨str, isTopic_iff.2 ⟨?_, ?_, ?_⟩⟩, hsplit⟩
  · intro hnil
    rw [hnil] at hsplit
    exact (hspec [] (hsplit ▸ List.mem_singleton_self _)).1 rfl
  · intro seg hseg
    rw [hsplit] at hseg
    exact (hspec seg hseg).1
  · intro c hc
    by_cases hdot : c = '.'
    · subst hdot
      decide
    · obtain ⟨seg, hseg, hcs⟩ := (mem_iff_exists_segment hdot).1 hc
      rw [hsplit] at hseg
      exact (hspec seg hseg).2.2 c hcs

/-- Segments with no star but `*` match what they are filled to. -/
theorem forall₂_fill {ps : List Text} (h : ∀ p ∈ ps, '*' ∈ p → p = "*") :
    List.Forall₂ SegmentMatches ps (ps.map fill) := by
  rw [List.forall₂_map_right_iff, List.forall₂_same]
  intro p hp
  by_cases hstar : '*' ∈ p
  · exact .inl (h p hp hstar)
  · exact .inr (if_neg hstar).symm

theorem exists_matches_of (h : WellFormed pattern) (hstars : WholeStars pattern) :
    ∃ topic : Topic, Matches topic pattern := by
  obtain ⟨topic, htopic⟩ := exists_filled h
  have hne : pattern.splitOn '.' ≠ [] := splitOn_ne_nil
  obtain ⟨front, last, hsegs⟩ := (List.eq_nil_or_concat' _).resolve_left hne
  have hfront : ∀ p ∈ front, '*' ∈ p → p = "*" := by
    intro p hp hstar
    refine (hstars p (hsegs ▸ List.mem_append_left _ hp) hstar).resolve_right ?_
    rintro rfl
    refine h.stars ?_
    rw [hsegs, List.dropLast_concat]
    exact hp
  rw [hsegs, List.map_append] at htopic
  refine ⟨topic, ?_⟩
  by_cases hlast : last = "**"
  · refine .inr (.inl ⟨front, by rw [hsegs, hlast], ?_, ?_⟩)
    · rw [htopic, List.length_append, List.length_map]
      exact Nat.le_add_right _ _
    · rw [htopic, List.take_left' (List.length_map _)]
      exact forall₂_fill hfront
  · have hall : ∀ p ∈ pattern.splitOn '.', '*' ∈ p → p = "*" := by
      intro p hp hstar
      rw [hsegs, List.mem_append, List.mem_singleton] at hp
      rcases hp with hp | rfl
      · exact hfront p hp hstar
      · exact (hstars p (by simp [hsegs]) hstar).resolve_right hlast
    have hmatch := forall₂_fill hall
    rw [hsegs, List.map_append, ← htopic, ← hsegs] at hmatch
    exact .inr (.inr ⟨hmatch.length_eq, hmatch⟩)

/-- A pattern whose segments are `*` or segments of a topic, but perhaps for a final `**`. -/
theorem wellFormed_of_segments (topic : Topic) {front last : List Text}
    (hsegs : pattern.splitOn '.' = front ++ last)
    (hfront : ∀ p ∈ front, p = "*" ∨ p ∈ topic.str.splitOn '.')
    (hlast : last = ["**".toList] ∨ last = []) : WellFormed pattern ∧ WholeStars pattern := by
  obtain ⟨-, hnonempty, hchars⟩ := isTopic_iff.1 topic.valid
  have hseg : ∀ p ∈ pattern.splitOn '.',
      p = "*" ∨ p = "**" ∨ p ∈ topic.str.splitOn '.' := by
    intro p hp
    rw [hsegs, List.mem_append] at hp
    rcases hp with hp | hp
    · exact (hfront p hp).imp_right .inr
    · rcases hlast with rfl | rfl
      · exact .inr (.inl (List.mem_singleton.1 hp))
      · cases hp
  have hplain : ∀ p ∈ topic.str.splitOn '.', ∀ c ∈ p, isPatternChar c = true := by
    intro p hp c hc
    have hdot : c ≠ '.' := fun hdot => not_mem_of_mem_splitOn hp (hdot ▸ hc)
    have hchar := hchars c ((mem_iff_exists_segment hdot).2 ⟨p, hp, hc⟩)
    rw [isPatternChar, hchar, Bool.true_or]
  refine ⟨⟨?_, ?_, ?_⟩, ?_⟩
  · intro c hc
    by_cases hdot : c = '.'
    · subst hdot
      decide
    · obtain ⟨p, hp, hcp⟩ := (mem_iff_exists_segment hdot).1 hc
      rcases hseg p hp with rfl | rfl | hp
      · exact List.all_eq_true.1 (by decide : "*".toList.all isPatternChar = true) c hcp
      · exact List.all_eq_true.1 (by decide : "**".toList.all isPatternChar = true) c hcp
      · exact hplain p hp c hcp
  · intro p hp
    rcases hseg p hp with rfl | rfl | hp
    · decide
    · decide
    · exact hnonempty p hp
  · have hnot : "**".toList ∉ front := by
      intro hmem
      rcases hfront _ hmem with heq | hmem
      · exact absurd heq (by decide)
      · exact topic.segment_ne_stars _ hmem (by decide)
    intro hmem
    rw [hsegs] at hmem
    rcases hlast with rfl | rfl
    · rw [List.dropLast_concat] at hmem
      exact hnot hmem
    · rw [List.append_nil] at hmem
      exact hnot (List.mem_of_mem_dropLast hmem)
  · intro p hp hstar
    rcases hseg p hp with rfl | rfl | hp
    · exact .inl rfl
    · exact .inr rfl
    · exact absurd hstar (topic.segment_ne_stars p hp)

/-- **Patterns that match some topic** are the well-formed ones whose stars are whole segments. -/
theorem exists_matches_iff :
    (∃ topic : Topic, topic.matchesPattern pattern = true) ↔ WellFormed pattern ∧ WholeStars pattern := by
  simp only [topic_matches_iff]
  constructor
  · rintro ⟨topic, rfl | ⟨front, hsegs, -, hmatch⟩ | ⟨-, hmatch⟩⟩
    · have hsegs : "**".toList.splitOn '.' = [] ++ ["**".toList] := splitOn_of_not_mem (by decide)
      exact wellFormed_of_segments topic hsegs (fun p hp => (nomatch hp)) (.inl rfl)
    · refine wellFormed_of_segments topic hsegs (fun p hp => ?_) (.inl rfl)
      exact (mem_of_forall₂ hmatch hp).imp_right List.mem_of_mem_take
    · exact wellFormed_of_segments topic (List.append_nil _).symm
        (fun p hp => mem_of_forall₂ hmatch hp) (.inr rfl)
  · rintro ⟨h, hstars⟩
    exact exists_matches_of h hstars

theorem trySubscribeTopic_eq_ok {s : Subscriber} :
    trySubscribeTopic pattern = .ok s ↔ WellFormed pattern ∧ s = ⟨some pattern⟩ := by
  rw [← validatePattern_iff]
  unfold trySubscribeTopic
  cases validatePattern pattern with
  | error e => exact ⟨fun h => (nomatch h), fun h => (nomatch h.1)⟩
  | ok =>
    constructor
    · intro h
      cases h
      exact ⟨rfl, rfl⟩
    · rintro ⟨-, rfl⟩
      rfl

/-- **Validation foretells a match exactly when** the stars of a well-formed pattern are whole segments;
a subscriber is then never left without topics. No pattern that matches a topic is refused. -/
theorem validated_matches_iff (pattern : Text) :
    ((validatePattern pattern = .ok () ↔ ∃ topic : Topic, topic.matchesPattern pattern = true) ↔
      (WellFormed pattern → WholeStars pattern)) ∧
    ((∀ s, trySubscribeTopic pattern = .ok s → ∃ topic, s.receives topic = true) ↔
      (WellFormed pattern → WholeStars pattern)) ∧
    ((∃ topic : Topic, topic.matchesPattern pattern = true) →
      ∃ s, trySubscribeTopic pattern = .ok s) := by
  refine ⟨?_, ?_, ?_⟩
  · rw [validatePattern_iff, exists_matches_iff]
    constructor
    · exact fun h hwf => (h.1 hwf).2
    · exact fun h => ⟨fun hwf => ⟨hwf, h hwf⟩, And.left⟩
  · simp only [trySubscribeTopic_eq_ok]
    constructor
    · intro h hwf
      exact (exists_matches_iff.1 (h _ ⟨hwf, rfl⟩)).2
    · rintro h s ⟨hwf, rfl⟩
      exact exists_matches_iff.2 ⟨hwf, h hwf⟩
  · intro h
    exact ⟨_, trySubscribeTopic_eq_ok.2 ⟨(exists_matches_iff.1 h).1, rfl⟩⟩

/-- A star behind a letter: the pattern is accepted, and no topic matches it. -/
theorem subscribe_mixed_star :
    trySubscribeTopic "a*" = .ok ⟨some "a*".toList⟩ ∧
      ∀ topic : Topic, topic.matchesPattern "a*" = false := by
  refine ⟨by decide, fun topic => ?_⟩
  by_contra h
  have hstars := (exists_matches_iff.1 ⟨topic, Bool.not_eq_false _ ▸ h⟩).2
  exact absurd (hstars "a*" (by decide) (by decide)) (by decide)

end Entanglement.Ipc
