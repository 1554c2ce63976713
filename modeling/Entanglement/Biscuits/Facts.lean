import Entanglement.Biscuits.Verifier

/-!
# What the lines of a token say

`scanLine` reads a line and updates the facts in one pass. Here the two are taken apart: `lineError`
is the reason for which a line is refused, and `absorb` is what an admitted line adds
(`scanLine_eq`). Extraction is then the first refusal among the lines of the token, or a fold of
`absorb` over them (`extractFacts_eq`), and each field of the result is an expression over the lines
by itself: the capabilities in order, the last holder, the least expiry and limits, the first
destination (`factsOf`).

`verify_eq_ok_iff` puts this together with the checks of `verify`: a token verifies exactly when its
lines are `Admitted`, and then to what they say.
-/

namespace Entanglement.Biscuits

open Lib

/-! ## The predicate of a line -/

variable {line : Text} {blocks : List Text}

theorem stripPredicate_eq_some {pred arg : Text} :
    stripPredicate line pred = some arg ↔ line = pred ++ '(' :: (arg ++ [')']) := by
  unfold stripPredicate
  dsimp only
  constructor
  · intro h
    split at h
    · next hc =>
      cases h
      simp only [Bool.and_eq_true, List.isPrefixOf_iff_prefix, beq_iff_eq] at hc
      obtain ⟨⟨rest, rfl⟩, hlast⟩ := hc
      cases rest using List.reverseRecOn with
      | nil => simp at hlast
      | append_singleton init c =>
        simp only [← List.append_assoc, List.getLast?_concat, Option.some.injEq] at hlast
        subst hlast
        rw [List.drop_left, List.dropLast_concat, List.append_assoc]
        rfl
    · cases h
  · rintro rfl
    have hassoc : pred ++ '(' :: (arg ++ [')']) = (pred ++ ['(']) ++ (arg ++ [')']) := by simp
    have hlast : ((pred ++ ['(']) ++ (arg ++ [')'])).getLast? = some ')' := by
      rw [← List.append_assoc, List.getLast?_concat]
    rw [hassoc, hlast, List.drop_left, List.dropLast_concat, if_pos]
    simp

theorem eq_of_append_cons_eq {c : Char} {p q x y : Text} (hp : c ∉ p) (hq : c ∉ q)
    (h : p ++ c :: x = q ++ c :: y) : p = q := by
  induction p generalizing q with
  | nil =>
    cases q with
    | nil => rfl
    | cons b q =>
      obtain ⟨rfl, -⟩ := List.cons.inj h
      simp at hq
  | cons a p ih =>
    cases q with
    | nil =>
      obtain ⟨rfl, -⟩ := List.cons.inj h
      simp at hp
    | cons b q =>
      obtain ⟨rfl, htail⟩ := List.cons.inj h
      rw [ih (fun hc => hp (.tail _ hc)) (fun hc => hq (.tail _ hc)) htail]

/-- The predicates that the scanner knows. -/
def predicates : List Text :=
  ["peer", "capability", "expires", "dest_pin",
    "rate_limit_bps", "total_bytes_cap", "bridge"]

/-- A line has at most one of them. -/
theorem predicates_pairwise (line : Text) :
    predicates.Pairwise fun p q => stripPredicate line p = none ∨ stripPredicate line q = none := by
  have hopen : ∀ p ∈ predicates, '(' ∉ p := by decide
  have hnodup : predicates.Nodup := by decide
  refine hnodup.imp_of_mem ?_
  intro p q hp hq hne
  cases hpl : stripPredicate line p with
  | none => exact .inl rfl
  | some arg =>
    cases hql : stripPredicate line q with
    | none => exact .inr rfl
    | some arg' =>
      rw [stripPredicate_eq_some] at hpl hql
      exact absurd (eq_of_append_cons_eq (hopen p hp) (hopen q hq) (hpl.symm.trans hql)) hne

/-! ## One line -/

def capabilityOf (line : Text) : Option Text :=
  (stripPredicate line "capability").bind parseStringTerm

/-- The peer of a quoted `peer` fact; the inner `none` is a text that is no peer id. -/
def peerOf (line : Text) : Option (Option PeerId) :=
  ((stripPredicate line "peer").bind parseStringTerm).map fun hex =>
    (PeerId.fromHex hex).toOption

def expiryOf (line : Text) : Option Int :=
  (stripPredicate line "expires").bind fun arg => Text.parseI64 (Text.trim arg)

/-- The peer of a quoted `dest_pin` fact, or why it is none. -/
def pinOf (line : Text) : Option (Except PeerId.ParseError PeerId) :=
  ((stripPredicate line "dest_pin").bind parseStringTerm).map PeerId.fromHex

def rateLimitOf (line : Text) : Option Nat :=
  (stripPredicate line "rate_limit_bps").bind fun arg => Text.parseU64 (Text.trim arg)

def totalBytesOf (line : Text) : Option Nat :=
  (stripPredicate line "total_bytes_cap").bind fun arg => Text.parseU64 (Text.trim arg)

/-- The peer that a line pins, if it can be read. -/
def destOf (line : Text) : Option PeerId := (pinOf line).bind Except.toOption

def isBridge (line : Text) : Bool := stripPredicate line "bridge" == some "true".toList

/-- The line confers something: a capability, or a holder. -/
def grants (line : Text) : Bool :=
  (stripPredicate line "peer").isSome || (stripPredicate line "capability").isSome

/-- Why a line of block `index` is refused, if it is. -/
def lineError (index : Nat) (line : Text) : Option BiscuitError :=
  if index ≠ authorityBlockIndex ∧ (stripPredicate line "peer").isSome then
    some (.verify (.peerFact index))
  else if index ≠ authorityBlockIndex ∧ (stripPredicate line "capability").isSome then
    some (.verify (.capabilityFact index))
  else
    match pinOf line with
    | some (.error e) => some (.malformedClaim "dest_pin" e)
    | _ => none

/-- What a line that is not refused adds to the facts. -/
def absorb (facts : ExtractedFacts) (line : Text) : ExtractedFacts where
  authorityCapabilities := (capabilityOf line).elim facts.authorityCapabilities
    fun c => facts.authorityCapabilities ++ [c]
  issuedTo := (peerOf line).elim facts.issuedTo id
  expires := (expiryOf line).elim facts.expires (minMerge facts.expires)
  destPin := (destOf line).elim facts.destPin (firstWins facts.destPin)
  rateLimitBps := (rateLimitOf line).elim facts.rateLimitBps (minMerge facts.rateLimitBps)
  totalBytesCap := (totalBytesOf line).elim facts.totalBytesCap (minMerge facts.totalBytesCap)
  bridgeMarker := facts.bridgeMarker || isBridge line

theorem isBridge_iff : isBridge line = true ↔ line = "bridge(true)" := by
  rw [isBridge, beq_iff_eq, stripPredicate_eq_some]
  rfl

/-- **A line is refused, or absorbed.** -/
theorem scanLine_eq (index : Nat) (facts : ExtractedFacts) (line : Text) :
    scanLine index facts line = (lineError index line).elim (.ok (absorb facts line)) .error := by
  have hpair := predicates_pairwise line
  have hmark := @isBridge_iff line
  simp only [predicates, List.pairwise_cons, List.forall_mem_cons, List.not_mem_nil, false_implies,
    implies_true, and_true, List.Pairwise.nil] at hpair
  unfold isBridge at hmark
  unfold scanLine lineError absorb capabilityOf peerOf expiryOf destOf pinOf rateLimitOf totalBytesOf
    isBridge
  simp only [← hmark]
  generalize stripPredicate line "peer" = peer at hpair ⊢
  generalize stripPredicate line "capability" = capability at hpair ⊢
  generalize stripPredicate line "expires" = expires at hpair ⊢
  generalize stripPredicate line "dest_pin" = destPin at hpair ⊢
  generalize stripPredicate line "rate_limit_bps" = rateLimit at hpair ⊢
  generalize stripPredicate line "total_bytes_cap" = totalBytes at hpair ⊢
  generalize stripPredicate line "bridge" = bridge at hpair ⊢
  obtain ⟨hpeer, hcapability, hexpires, hdestPin, hrateLimit, htotalBytes⟩ := hpair
  -- in the order in which the source tries them; the predicate that matches excludes the others
  cases peer with
  | some arg =>
    simp only [reduceCtorEq, false_or] at hpeer
    obtain ⟨rfl, rfl, rfl, rfl, rfl, rfl⟩ := hpeer
    by_cases hindex : index = authorityBlockIndex <;>
      cases hterm : parseStringTerm arg <;> simp [hindex, hterm]
  | none =>
  cases capability with
  | some arg =>
    simp only [reduceCtorEq, false_or] at hcapability
    obtain ⟨rfl, rfl, rfl, rfl, rfl⟩ := hcapability
    by_cases hindex : index = authorityBlockIndex <;>
      cases hterm : parseStringTerm arg <;> simp [hindex, hterm]
  | none =>
  cases expires with
  | some arg =>
    simp only [reduceCtorEq, false_or] at hexpires
    obtain ⟨rfl, rfl, rfl, rfl⟩ := hexpires
    cases hn : Text.parseI64 (Text.trim arg) <;> simp [hn]
  | none =>
  cases destPin with
  | some arg =>
    simp only [reduceCtorEq, false_or] at hdestPin
    obtain ⟨rfl, rfl, rfl⟩ := hdestPin
    cases hterm : parseStringTerm arg with
    | none => simp [hterm]
    | some hex => cases hhex : PeerId.fromHex hex <;> simp [hterm, hhex, Except.toOption]
  | none =>
  cases rateLimit with
  | some arg =>
    simp only [reduceCtorEq, false_or] at hrateLimit
    obtain ⟨rfl, rfl⟩ := hrateLimit
    cases hn : Text.parseU64 (Text.trim arg) <;> simp [hn]
  | none =>
  cases totalBytes with
  | some arg =>
    simp only [reduceCtorEq, false_or] at htotalBytes
    subst htotalBytes
    cases hn : Text.parseU64 (Text.trim arg) <;> simp [hn]
  | none => cases (bridge == some "true".toList) <;> simp

/-! ## All lines -/

/-- The lines of the blocks from block `index` on, trimmed, each with the index of its block. -/
def tokenLinesFrom (index : Nat) : List Text → List (Nat × Text)
  | [] => []
  | source :: rest =>
    (Text.lines source).map (fun line => (index, trimLine line)) ++ tokenLinesFrom (index + 1) rest

/-- The lines of a token. -/
def tokenLines (blocks : List Text) : List (Nat × Text) := tokenLinesFrom 0 blocks

/-- Their texts. -/
def allLines (blocks : List Text) : List Text := (tokenLines blocks).map Prod.snd

/-- The lines of its authority block. -/
def authorityLines : List Text → List Text
  | [] => []
  | source :: _ => (Text.lines source).map trimLine

/-- The lines of the blocks after it. -/
def laterLines : List Text → List (Nat × Text)
  | [] => []
  | _ :: rest => tokenLinesFrom (authorityBlockIndex + 1) rest

/-- What the lines of a token say, taken together. -/
def factsOf (lines : List Text) : ExtractedFacts where
  authorityCapabilities := lines.filterMap capabilityOf
  issuedTo := (lines.filterMap peerOf).getLast?.join
  expires := least (lines.filterMap expiryOf)
  destPin := (lines.filterMap destOf).head?
  rateLimitBps := least (lines.filterMap rateLimitOf)
  totalBytesCap := least (lines.filterMap totalBytesOf)
  bridgeMarker := lines.any isBridge

theorem foldl_absorb (lines : List Text) : lines.foldl absorb {} = factsOf lines := by
  have hmark : ∀ facts : ExtractedFacts,
      (lines.foldl absorb facts).bridgeMarker = (facts.bridgeMarker || lines.any isBridge) := by
    induction lines with
    | nil => simp
    | cons line lines ih => intro facts; simp [ih, absorb, Bool.or_assoc]
  apply ExtractedFacts.ext
  · rw [foldl_component ExtractedFacts.authorityCapabilities (h := fun cs c => cs ++ [c])
      (fun _ _ => rfl)]
    exact foldl_concat _ _
  · rw [foldl_component ExtractedFacts.issuedTo (h := fun _ p => p) (fun _ _ => rfl), foldl_last,
      factsOf]
    cases (lines.filterMap peerOf).getLast? <;> rfl
  · exact foldl_component ExtractedFacts.expires (fun _ _ => rfl) lines {}
  · rw [foldl_component ExtractedFacts.destPin (fun _ _ => rfl), foldl_firstWins]
    rfl
  · exact foldl_component ExtractedFacts.rateLimitBps (fun _ _ => rfl) lines {}
  · exact foldl_component ExtractedFacts.totalBytesCap (fun _ _ => rfl) lines {}
  · rw [hmark, Bool.false_or, factsOf]

theorem extractFrom_eq_foldlM (index : Nat) (facts : ExtractedFacts) (blocks : List Text) :
    extractFrom index facts blocks =
      (tokenLinesFrom index blocks).foldlM (fun facts l => scanLine l.1 facts l.2) facts := by
  induction blocks generalizing index facts with
  | nil => rfl
  | cons source rest ih =>
    rw [extractFrom, tokenLinesFrom, List.foldlM_append, List.foldlM_map, scanBlockSource]
    exact bind_congr fun facts => ih (index + 1) facts

/-- **Extraction**: the first refusal among the lines, or what the lines say. -/
theorem extractFacts_eq (blocks : List Text) :
    extractFacts blocks = ((tokenLines blocks).findSome? fun l => lineError l.1 l.2).elim
      (.ok (factsOf (allLines blocks))) .error := by
  rw [extractFacts, extractFrom_eq_foldlM, ← tokenLines,
    foldlM_check (g := fun facts l => absorb facts l.2) (fun facts l => scanLine_eq l.1 facts l.2),
    ← foldl_absorb, allLines, List.foldl_map]

theorem extractFacts_eq_ok {facts : ExtractedFacts} :
    extractFacts blocks = .ok facts ↔
      (∀ l ∈ tokenLines blocks, lineError l.1 l.2 = none) ∧
        facts = factsOf (allLines blocks) := by
  rw [extractFacts_eq, ← List.findSome?_eq_none_iff]
  cases (tokenLines blocks).findSome? fun l => lineError l.1 l.2 <;> simp [eq_comm]

theorem lineError_eq_none {index : Nat} :
    lineError index line = none ↔
      (index ≠ authorityBlockIndex → grants line = false) ∧ ∀ e, pinOf line ≠ some (.error e) := by
  unfold lineError grants
  by_cases hindex : index = authorityBlockIndex
  · rcases hpin : pinOf line with _ | e | p <;> simp [hindex]
  · rcases hpin : pinOf line with _ | e | p <;>
      cases stripPredicate line "peer" <;> cases stripPredicate line "capability" <;>
      simp [hindex]

/-! ## The authority block -/

theorem le_of_mem_tokenLinesFrom {index : Nat} {l : Nat × Text}
    (h : l ∈ tokenLinesFrom index blocks) : index ≤ l.1 := by
  induction blocks generalizing index with
  | nil => cases h
  | cons source rest ih =>
    rcases List.mem_append.1 h with h | h
    · obtain ⟨line, -, rfl⟩ := List.mem_map.1 h
      exact le_refl index
    · have := ih h
      omega

theorem ne_of_mem_laterLines {l : Nat × Text} (h : l ∈ laterLines blocks) :
    l.1 ≠ authorityBlockIndex := by
  cases blocks with
  | nil => cases h
  | cons source rest =>
    have := le_of_mem_tokenLinesFrom h
    omega

theorem tokenLines_eq (blocks : List Text) :
    tokenLines blocks =
      (authorityLines blocks).map (authorityBlockIndex, ·) ++ laterLines blocks := by
  cases blocks with
  | nil => rfl
  | cons source rest => simp [tokenLines, tokenLinesFrom, authorityLines, laterLines, authorityBlockIndex]

theorem mem_tokenLines {l : Nat × Text} :
    l ∈ tokenLines blocks ↔
      (l.1 = authorityBlockIndex ∧ l.2 ∈ authorityLines blocks) ∨ l ∈ laterLines blocks := by
  obtain ⟨index, line⟩ := l
  rw [tokenLines_eq, List.mem_append, List.mem_map]
  refine or_congr_left ⟨?_, ?_⟩
  · rintro ⟨line', hline, heq⟩
    cases heq
    exact ⟨rfl, hline⟩
  · rintro ⟨rfl, hline⟩
    exact ⟨line, hline, rfl⟩

theorem capabilityOf_eq_none (h : grants line = false) : capabilityOf line = none := by
  simp only [grants, Bool.or_eq_false_iff, Option.isSome_eq_false_iff, Option.isNone_iff_eq_none] at h
  rw [capabilityOf, h.2, Option.bind_none]

theorem peerOf_eq_none (h : grants line = false) : peerOf line = none := by
  simp only [grants, Bool.or_eq_false_iff, Option.isSome_eq_false_iff, Option.isNone_iff_eq_none] at h
  rw [peerOf, h.1, Option.bind_none, Option.map_none]

/-- A reader that finds nothing in the later blocks reads the authority block only. -/
theorem filterMap_authority {α : Type} {read : Text → Option α}
    (h : ∀ l ∈ laterLines blocks, read l.2 = none) :
    (allLines blocks).filterMap read = (authorityLines blocks).filterMap read := by
  have hlater : ((laterLines blocks).map Prod.snd).filterMap read = [] := by
    rw [List.filterMap_eq_nil_iff]
    intro line hline
    obtain ⟨l, hl, rfl⟩ := List.mem_map.1 hline
    exact h l hl
  rw [allLines, tokenLines_eq, List.map_append, List.filterMap_append, hlater, List.append_nil, List.map_map]
  simp

/-! ## Verification -/

/-- What the lines of a token must satisfy to be accepted: nothing is conferred after the authority
block, every quoted destination is a peer id, no expiry that can be read has passed, the last quoted
holder is no other node, and the capability is among those conferred. -/
structure Admitted (blocks : List Text) (ctx : VerifyContext) (cap : Text) : Prop where
  confined : ∀ l ∈ laterLines blocks, grants l.2 = false
  pins : ∀ l ∈ tokenLines blocks, ∀ e, pinOf l.2 ≠ some (.error e)
  fresh : ∀ l ∈ tokenLines blocks, ∀ n, expiryOf l.2 = some n → ctx.nowUnixSecs < n
  holder : ∀ p, ((authorityLines blocks).filterMap peerOf).getLast? = some (some p) →
    p = ctx.localPeerId
  capability : cap ∈ (authorityLines blocks).filterMap capabilityOf

theorem lineErrors_eq_none :
    (∀ l ∈ tokenLines blocks, lineError l.1 l.2 = none) ↔
      (∀ l ∈ laterLines blocks, grants l.2 = false) ∧
        ∀ l ∈ tokenLines blocks, ∀ e, pinOf l.2 ≠ some (.error e) := by
  simp only [lineError_eq_none]
  constructor
  · intro h
    refine ⟨?_, fun l hl => (h l hl).2⟩
    intro l hl
    exact (h l (mem_tokenLines.2 (.inr hl))).1 (ne_of_mem_laterLines hl)
  · rintro ⟨hgrants, hpins⟩ l hl
    refine ⟨?_, hpins l hl⟩
    intro hindex
    rcases mem_tokenLines.1 hl with ⟨heq, -⟩ | hlater
    · exact absurd heq hindex
    · exact hgrants l hlater

/-- The checks of `verify` on what the lines say, as a condition on the lines. -/
theorem checkFacts_factsOf {ctx : VerifyContext} {cap : Text}
    (hconfined : ∀ l ∈ laterLines blocks, grants l.2 = false) :
    checkFacts (factsOf (allLines blocks)) ctx cap = .ok () ↔
      (∀ l ∈ tokenLines blocks, ∀ n, expiryOf l.2 = some n → ctx.nowUnixSecs < n) ∧
      (∀ p, ((authorityLines blocks).filterMap peerOf).getLast? = some (some p) →
        p = ctx.localPeerId) ∧ cap ∈ (authorityLines blocks).filterMap capabilityOf := by
  rw [checkFacts_eq_ok]
  simp only [factsOf, lt_least_iff, Option.join_eq_some_iff,
    filterMap_authority fun l hl => peerOf_eq_none (hconfined l hl),
    filterMap_authority fun l hl => capabilityOf_eq_none (hconfined l hl)]
  refine and_congr_left fun _ => ?_
  simp only [List.mem_filterMap, allLines, List.mem_map]
  constructor
  · intro h l hl n hn
    exact h n ⟨l.2, ⟨l, hl, rfl⟩, hn⟩
  · rintro h n ⟨line, ⟨l, hl, rfl⟩, hn⟩
    exact h l hl n hn

/-- **Verification**: a token verifies exactly when its lines are admitted, to what they say. -/
theorem verify_eq_ok_iff {ctx : VerifyContext} {cap : Text} {facts : ExtractedFacts} :
    verify blocks ctx cap = .ok facts ↔
      Admitted blocks ctx cap ∧ facts = factsOf (allLines blocks) := by
  rw [verify_eq_ok, extractFacts_eq_ok, lineErrors_eq_none]
  constructor
  · rintro ⟨⟨⟨hconfined, hpins⟩, rfl⟩, hcheck⟩
    obtain ⟨hfresh, hholder, hcap⟩ := (checkFacts_factsOf hconfined).1 hcheck
    exact ⟨⟨hconfined, hpins, hfresh, hholder, hcap⟩, rfl⟩
  · rintro ⟨h, rfl⟩
    exact ⟨⟨⟨h.confined, h.pins⟩, rfl⟩,
      (checkFacts_factsOf h.confined).2 ⟨h.fresh, h.holder, h.capability⟩⟩

end Entanglement.Biscuits
