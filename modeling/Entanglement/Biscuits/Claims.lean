import Entanglement.Biscuits.Facts

/-!
# Claims and their text (`entangle-biscuits`, `claims.rs`)

A claim is written into a token as one Datalog fact (`Claim.asDatalog`), and the scanner reads the
facts back from the text of the block, line by line. `scan_claims_iff` says when the facts that come
out are those of the claims that went in: when no capability has a line feed in its name. Quotes and
backslashes are escaped, a line feed is not, and it cuts the fact into lines that are read by
themselves.
-/

namespace Entanglement.Biscuits

open Lib

inductive Claim
  | issuedTo (peerId : PeerId)
  | capability (surface : Text)
  | expires (unixSecs : Int64)
  | destPin (peerId : PeerId)
  | rateLimitBps (bps : UInt64)
  | totalBytesCap (bytes : UInt64)
  | bridgeMarker
  deriving DecidableEq

/-- Escape backslashes and double quotes. -/
def escape (s : Text) : Text :=
  Text.replaceChar '"' ['\\', '"'] (Text.replaceChar '\\' ['\\', '\\'] s)

def quoted (s : Text) : Text := '"' :: s ++ ['"']

namespace Claim

def asDatalog : Claim → Text
  | issuedTo peerId => "peer(" ++ quoted peerId.toHex ++ ")"
  | capability surface => "capability(" ++ quoted (escape surface) ++ ")"
  | expires unixSecs => "expires(" ++ signed unixSecs.toInt ++ ")"
  | destPin peerId => "dest_pin(" ++ quoted peerId.toHex ++ ")"
  | rateLimitBps bps => "rate_limit_bps(" ++ decimal bps.toNat ++ ")"
  | totalBytesCap bytes => "total_bytes_cap(" ++ decimal bytes.toNat ++ ")"
  | bridgeMarker => "bridge(true)"

/-! What each kind of claim says. -/

def surface? : Claim → Option Text
  | capability surface => some surface
  | _ => none

def holder? : Claim → Option PeerId
  | issuedTo peerId => some peerId
  | _ => none

def expiry? : Claim → Option Int
  | expires unixSecs => some unixSecs.toInt
  | _ => none

def dest? : Claim → Option PeerId
  | destPin peerId => some peerId
  | _ => none

def rate? : Claim → Option Nat
  | rateLimitBps bps => some bps.toNat
  | _ => none

def bytes? : Claim → Option Nat
  | totalBytesCap bytes => some bytes.toNat
  | _ => none

/-! The parts of its fact. -/

/-- The predicate of the fact. -/
def pred : Claim → Text
  | issuedTo _ => "peer"
  | capability _ => "capability"
  | expires _ => "expires"
  | destPin _ => "dest_pin"
  | rateLimitBps _ => "rate_limit_bps"
  | totalBytesCap _ => "total_bytes_cap"
  | bridgeMarker => "bridge"

/-- Its argument. -/
def arg : Claim → Text
  | issuedTo peerId => quoted peerId.toHex
  | capability surface => quoted (escape surface)
  | expires unixSecs => signed unixSecs.toInt
  | destPin peerId => quoted peerId.toHex
  | rateLimitBps bps => decimal bps.toNat
  | totalBytesCap bytes => decimal bytes.toNat
  | bridgeMarker => "true"

/-- The place of the predicate in the list of them. -/
def kind : Claim → Fin 7
  | issuedTo _ => 0
  | capability _ => 1
  | expires _ => 2
  | destPin _ => 3
  | rateLimitBps _ => 4
  | totalBytesCap _ => 5
  | bridgeMarker => 6

end Claim

/-- The source of the block that holds the claims: one fact a line, each with a semicolon. -/
def blockSource (claims : List Claim) : Text := claims.flatMap fun c => c.asDatalog ++ [';', '\n']

/-- What the claims say: the capabilities in order, the last holder, the least expiry and limits,
the first destination, and whether the marker is there. -/
def claimFacts (claims : List Claim) : ExtractedFacts where
  authorityCapabilities := claims.filterMap Claim.surface?
  issuedTo := (claims.filterMap Claim.holder?).getLast?
  expires := least (claims.filterMap Claim.expiry?)
  destPin := (claims.filterMap Claim.dest?).head?
  rateLimitBps := least (claims.filterMap Claim.rate?)
  totalBytesCap := least (claims.filterMap Claim.bytes?)
  bridgeMarker := decide (Claim.bridgeMarker ∈ claims)

/-- Beside the capabilities, the facts come from the other claims. -/
theorem claimFacts_filter (claims : List Claim) :
    { claimFacts claims with authorityCapabilities := [] } =
      claimFacts (claims.filter fun c => c.surface?.isNone) := by
  have hother : ∀ {α : Type} (read : Claim → Option α), (∀ s, read (.capability s) = none) →
      (claims.filter fun c => c.surface?.isNone).filterMap read = claims.filterMap read := by
    intro α read hread
    rw [List.filterMap_filter]
    refine List.filterMap_congr fun c _ => ?_
    cases c with
    | capability s => exact (hread s).symm
    | _ => rfl
  have hsurface : (claims.filter fun c => c.surface?.isNone).filterMap Claim.surface? = [] := by
    rw [List.filterMap_eq_nil_iff]
    intro c hc
    simpa using (List.mem_filter.1 hc).2
  have hmark : Claim.bridgeMarker ∈ claims.filter (fun c => c.surface?.isNone) ↔
      Claim.bridgeMarker ∈ claims := by
    simp [Claim.surface?]
  simp only [claimFacts, hsurface, hmark, hother Claim.holder? fun _ => rfl,
    hother Claim.expiry? fun _ => rfl, hother Claim.dest? fun _ => rfl,
    hother Claim.rate? fun _ => rfl, hother Claim.bytes? fun _ => rfl]

/-! ## Strings -/

theorem unescape_escape (s : Text) :
    Text.replacePair '\\' '\\' ['\\'] (Text.replacePair '\\' '"' ['"'] (escape s)) = s := by
  rw [escape, Text.replacePair_replaceChar, Text.replacePair_replaceChar]

theorem mem_escape {c : Char} {s : Text} (h : c ∈ escape s) : c = '\\' ∨ c = '"' ∨ c ∈ s := by
  rcases Text.mem_replaceChar h with h | h
  · exact (List.mem_pair.1 h).imp_right .inl
  · rcases Text.mem_replaceChar h with h | h
    · exact (List.mem_pair.1 h).elim .inl .inl
    · exact .inr (.inr h)

theorem newline_not_mem_quoted {s : Text} (h : '\n' ∉ s) : '\n' ∉ quoted s := by
  simpa [quoted] using h

theorem getLast?_quoted (s : Text) : (quoted s).getLast? = some '"' := List.getLast?_concat

/-- A quoted string is read as what stands between the quotes, unescaped. -/
theorem parseStringTerm_quoted (s : Text) :
    parseStringTerm (quoted s) =
      some (Text.replacePair '\\' '\\' ['\\'] (Text.replacePair '\\' '"' ['"'] s)) := by
  have htrim : Text.trim (quoted s) = quoted s := by
    apply Text.trim_eq_self
    · rintro c ⟨⟩
      rfl
    · intro c hc
      cases (getLast?_quoted s).symm.trans hc
      rfl
  have hlen : 2 ≤ Text.len (quoted s) := by
    simp only [quoted, Text.len_append, Text.len_cons, Text.len_nil, show Char.utf8Size '"' = 1 from rfl]
    omega
  unfold parseStringTerm
  dsimp only
  rw [htrim, if_pos ⟨hlen, rfl, getLast?_quoted s⟩]
  simp [quoted]

/-- A text without a backslash is not changed by unescaping. -/
theorem replacePair_eq_self {a b : Char} {new t : Text} (h : a ∉ t) :
    Text.replacePair a b new t = t := by
  induction t using Text.replacePair.induct a b with
  | case1 u v cs huv ih => exact absurd (huv.1 ▸ List.mem_cons_self) h
  | case2 u v cs huv ih =>
    rw [Text.replacePair, if_neg huv, ih (fun hm => h (.tail _ hm))]
  | case3 cs hcs =>
    rw [Text.replacePair]
    exact hcs

/-! ## One claim -/

variable {c : Claim}

namespace Claim

theorem asDatalog_eq (c : Claim) : c.asDatalog = c.pred ++ '(' :: (c.arg ++ [')']) := by
  cases c <;> rfl

theorem pred_eq (c : Claim) : c.pred = predicates.get c.kind := by
  cases c <;> rfl

theorem pred_mem (c : Claim) : c.pred ∈ predicates := c.pred_eq ▸ List.get_mem ..

/-- The predicates are told apart by their place. -/
theorem get_ne_pred {i : Fin 7} (h : i ≠ c.kind) : predicates.get i ≠ c.pred := by
  have hnodup : predicates.Nodup := by decide
  rw [pred_eq]
  exact fun heq => h (hnodup.injective_get heq)

theorem stripPredicate_pred (c : Claim) : stripPredicate c.asDatalog c.pred = some c.arg := by
  rw [stripPredicate_eq_some, asDatalog_eq]

theorem stripPredicate_other {q : Text} (i : Fin 7) (hq : q = predicates.get i) (h : i ≠ c.kind) :
    stripPredicate c.asDatalog q = none := by
  have hopen : ∀ p ∈ predicates, '(' ∉ p := by decide
  subst hq
  cases hs : stripPredicate c.asDatalog (predicates.get i) with
  | none => rfl
  | some arg =>
    rw [stripPredicate_eq_some, asDatalog_eq] at hs
    have heq := eq_of_append_cons_eq (hopen _ (List.get_mem ..)) (hopen _ c.pred_mem) hs.symm
    exact absurd heq (get_ne_pred h)

section
variable {α : Type} (read : Text → Option α)

/-- The reader of a claim's own predicate gets the argument. -/
theorem read_own {q : Text} (hq : q = c.pred) :
    (stripPredicate c.asDatalog q).bind read = read c.arg := by
  rw [hq, stripPredicate_pred, Option.bind_some]

/-- The readers of the other predicates get nothing. -/
theorem read_other {q : Text} (i : Fin 7) (hq : q = predicates.get i) (h : i ≠ c.kind) :
    (stripPredicate c.asDatalog q).bind read = none := by
  rw [stripPredicate_other i hq h, Option.bind_none]

end

theorem capabilityOf_asDatalog (c : Claim) : capabilityOf c.asDatalog = c.surface? := by
  cases c with
  | capability surface =>
    refine (read_own _ rfl).trans ?_
    show parseStringTerm (quoted (escape surface)) = some surface
    rw [parseStringTerm_quoted, unescape_escape]
  | _ => exact read_other _ 1 rfl (by dsimp only [kind]; decide)

/-- The quoted form of a peer id is read back as its digits. -/
theorem parseStringTerm_toHex (p : PeerId) : parseStringTerm (quoted p.toHex) = some p.toHex := by
  have hplain : '\\' ∉ p.toHex := fun h => by
    have := Hex.isAsciiHexdigit_of_mem_encode h
    contradiction
  rw [parseStringTerm_quoted, replacePair_eq_self hplain, replacePair_eq_self hplain]

theorem peerOf_asDatalog (c : Claim) : peerOf c.asDatalog = c.holder?.map some := by
  unfold peerOf
  cases c with
  | issuedTo peerId =>
    have hhex : parseStringTerm (issuedTo peerId).arg = some peerId.toHex :=
      parseStringTerm_toHex peerId
    rw [read_own (q := "peer") _ rfl, hhex, Option.map_some, PeerId.fromHex_toHex]
    rfl
  | _ =>
    rw [read_other (q := "peer") _ 0 rfl (by dsimp only [kind]; decide)]
    rfl

theorem pinOf_asDatalog (c : Claim) : pinOf c.asDatalog = c.dest?.map .ok := by
  unfold pinOf
  cases c with
  | destPin peerId =>
    have hhex : parseStringTerm (destPin peerId).arg = some peerId.toHex :=
      parseStringTerm_toHex peerId
    rw [read_own (q := "dest_pin") _ rfl, hhex, Option.map_some, PeerId.fromHex_toHex]
    rfl
  | _ =>
    rw [read_other (q := "dest_pin") _ 3 rfl (by dsimp only [kind]; decide)]
    rfl

theorem expiryOf_asDatalog (c : Claim) : expiryOf c.asDatalog = c.expiry? := by
  cases c with
  | expires unixSecs =>
    refine (read_own _ rfl).trans ?_
    have hblank : ∀ d ∈ signed unixSecs.toInt, Text.isWhitespace d = false := fun d hd => by
      rcases Text.mem_signed hd with rfl | hdigit
      · rfl
      · exact Text.isWhitespace_of_isDigit hdigit
    show Text.parseI64 (Text.trim (signed unixSecs.toInt)) = some unixSecs.toInt
    rw [Text.trim_eq_self_of_forall hblank, Text.parseI64_signed unixSecs]
  | _ => exact read_other _ 2 rfl (by dsimp only [kind]; decide)

theorem parseU64_trim_decimal {n : Nat} (h : n < 2 ^ 64) :
    Text.parseU64 (Text.trim (decimal n)) = some n := by
  rw [Text.trim_eq_self_of_forall fun _ hd =>
    Text.isWhitespace_of_isDigit (Text.isDigit_of_mem_decimal hd), Text.parseU64_decimal h]

theorem rateLimitOf_asDatalog (c : Claim) : rateLimitOf c.asDatalog = c.rate? := by
  cases c with
  | rateLimitBps bps =>
    exact (read_own _ rfl).trans (parseU64_trim_decimal bps.toNat_lt)
  | _ => exact read_other _ 4 rfl (by dsimp only [kind]; decide)

theorem totalBytesOf_asDatalog (c : Claim) : totalBytesOf c.asDatalog = c.bytes? := by
  cases c with
  | totalBytesCap bytes =>
    exact (read_own _ rfl).trans (parseU64_trim_decimal bytes.toNat_lt)
  | _ => exact read_other _ 5 rfl (by dsimp only [kind]; decide)

theorem isBridge_asDatalog (c : Claim) : isBridge c.asDatalog = decide (c = bridgeMarker) := by
  unfold isBridge
  cases c with
  | bridgeMarker => decide
  | _ =>
    rw [stripPredicate_other (q := "bridge") 6 rfl (by dsimp only [kind]; decide)]
    rfl

/-- No fact of the authority block that comes from a claim is refused. -/
theorem lineError_asDatalog (c : Claim) : lineError authorityBlockIndex c.asDatalog = none := by
  rw [lineError_eq_none]
  refine ⟨fun h => absurd rfl h, fun e he => ?_⟩
  rw [pinOf_asDatalog] at he
  cases hd : c.dest? with
  | none => simp [hd] at he
  | some p => simp [hd] at he

end Claim

/-! ## The text of a block -/

namespace Claim

theorem newline_not_mem_arg (h : ∀ surface, c = capability surface → '\n' ∉ surface) :
    '\n' ∉ c.arg := by
  have hhex : ∀ p : PeerId, '\n' ∉ quoted p.toHex := fun p => newline_not_mem_quoted fun hp => by
    have := Hex.isAsciiHexdigit_of_mem_encode hp
    contradiction
  have hdec : ∀ n, '\n' ∉ decimal n := fun n hn => by
    have := Text.isDigit_of_mem_decimal hn
    contradiction
  cases c with
  | issuedTo p => exact hhex p
  | destPin p => exact hhex p
  | rateLimitBps n => exact hdec _
  | totalBytesCap n => exact hdec _
  | bridgeMarker => decide
  | expires n =>
    intro hn
    rcases Text.mem_signed hn with hn | hn
    · contradiction
    · contradiction
  | capability surface =>
    apply newline_not_mem_quoted
    intro hn
    rcases mem_escape hn with hn | hn | hn
    · contradiction
    · contradiction
    · exact h surface rfl hn

/-- Without a line feed in its name the fact stays on one line. -/
theorem newline_not_mem_asDatalog (h : ∀ surface, c = capability surface → '\n' ∉ surface) :
    '\n' ∉ c.asDatalog := by
  have hpred : ∀ p ∈ predicates, '\n' ∉ p := by decide
  rw [asDatalog_eq]
  simp [hpred _ c.pred_mem, newline_not_mem_arg h]

theorem getLast?_asDatalog (c : Claim) : c.asDatalog.getLast? = some ')' := by
  rw [asDatalog_eq, ← List.cons_append, ← List.append_assoc, List.getLast?_concat]

/-- The scanner takes the semicolon off. -/
theorem trimLine_asDatalog (c : Claim) : trimLine (c.asDatalog ++ [';']) = c.asDatalog := by
  have hhead : ∀ p ∈ predicates, p ≠ [] ∧ p.all (fun d => !Text.isWhitespace d) = true := by decide
  have htrim : Text.trim (c.asDatalog ++ [';']) = c.asDatalog ++ [';'] := by
    apply Text.trim_eq_self
    · intro d hd
      rw [asDatalog_eq, List.append_assoc, List.head?_append_of_ne_nil _ (hhead _ c.pred_mem).1] at hd
      simpa using List.all_eq_true.1 (hhead _ c.pred_mem).2 d (List.mem_of_head? hd)
    · intro d hd
      rw [List.getLast?_concat] at hd
      cases hd
      rfl
  have hcomma : Text.trimEndMatches ',' (c.asDatalog ++ [';']) = c.asDatalog ++ [';'] :=
    Text.trimEndMatches_eq_self (by rw [List.getLast?_concat]; decide)
  have hsemi : Text.trimEndMatches ';' c.asDatalog = c.asDatalog :=
    Text.trimEndMatches_eq_self (by rw [getLast?_asDatalog]; decide)
  rw [trimLine, htrim, hcomma, Text.trimEndMatches_concat, hsemi]

end Claim

/-- A block is read as one line a claim. -/
theorem lines_blockSource {claims : List Claim}
    (h : ∀ surface, Claim.capability surface ∈ claims → '\n' ∉ surface) :
    Text.lines (blockSource claims) = claims.map fun c => c.asDatalog ++ [';'] := by
  induction claims with
  | nil => rfl
  | cons c claims ih =>
    have hline : '\n' ∉ c.asDatalog ++ [';'] := by
      have := Claim.newline_not_mem_asDatalog (c := c) fun s hs => h s (hs ▸ List.mem_cons_self)
      simpa using this
    have hsplit : blockSource (c :: claims) = (c.asDatalog ++ [';']) ++ '\n' :: blockSource claims := by
      simp [blockSource]
    rw [hsplit, Text.lines_newline hline (by rw [List.getLast?_concat]; decide),
      ih fun s hs => h s (.tail _ hs), List.map_cons]

/-- What the lines of the claims say is what the claims say. -/
theorem factsOf_claims (claims : List Claim) :
    factsOf (claims.map Claim.asDatalog) = claimFacts claims := by
  have hpeers : (claims.map Claim.asDatalog).filterMap peerOf =
      (claims.filterMap Claim.holder?).map some := by
    rw [List.filterMap_map, List.map_filterMap]
    exact List.filterMap_congr fun c _ => c.peerOf_asDatalog
  have hdest : ∀ c : Claim, destOf c.asDatalog = c.dest? := fun c => by
    rw [destOf, c.pinOf_asDatalog]
    cases c.dest? <;> rfl
  have hmark : (claims.map Claim.asDatalog).any isBridge = decide (Claim.bridgeMarker ∈ claims) := by
    rw [List.any_map, Bool.eq_iff_iff, List.any_eq_true, decide_eq_true_eq]
    simp only [Function.comp_apply, Claim.isBridge_asDatalog, decide_eq_true_eq, exists_eq_right]
  have hholder : ((claims.filterMap Claim.holder?).map some).getLast?.join =
      (claims.filterMap Claim.holder?).getLast? := by
    rw [List.getLast?_map]
    cases (claims.filterMap Claim.holder?).getLast? <;> rfl
  simp only [factsOf, claimFacts, hpeers, hholder, hmark, List.filterMap_map, Function.comp_def,
    Claim.capabilityOf_asDatalog, Claim.expiryOf_asDatalog, hdest, Claim.rateLimitOf_asDatalog,
    Claim.totalBytesOf_asDatalog]

/-- A capability name that is read has no line feed. -/
theorem newline_not_mem_capability {line surface : Text} (hline : '\n' ∉ line)
    (h : capabilityOf line = some surface) : '\n' ∉ surface := by
  rw [capabilityOf, Option.bind_eq_some_iff] at h
  obtain ⟨arg, harg, h⟩ := h
  rw [stripPredicate_eq_some] at harg
  unfold parseStringTerm at h
  dsimp only at h
  split at h
  · cases h
    intro hn
    apply hline
    rcases Text.mem_replacePair hn with hn | hn
    · cases List.mem_singleton.1 hn
    · rcases Text.mem_replacePair hn with hn | hn
      · cases List.mem_singleton.1 hn
      · have hin := Text.trim_subset _ (List.mem_of_mem_drop (List.mem_of_mem_dropLast hn))
        simp [harg, hin]
  · cases h

/-- The authority block alone is a token. -/
theorem scanBlockSource_authority (source : Text) :
    scanBlockSource authorityBlockIndex source {} = extractFacts [source] := by
  rw [extractFacts, extractFrom]
  exact (bind_pure _).symm

theorem tokenLines_singleton (source : Text) :
    tokenLines [source] =
      (Text.lines source).map fun line => (authorityBlockIndex, trimLine line) := by
  rw [tokenLines, tokenLinesFrom, tokenLinesFrom, List.append_nil]
  rfl

theorem allLines_singleton (source : Text) :
    allLines [source] = (Text.lines source).map trimLine := by
  rw [allLines, tokenLines_singleton, List.map_map]
  rfl

/-- **Round trip of the claims**: the facts scanned from the text of the claims are what the claims
say, and a capability adds nothing but itself, exactly when no capability has a line feed. -/
theorem scan_claims_iff (claims : List Claim) :
    (∃ facts, scanBlockSource authorityBlockIndex (blockSource claims) {} = .ok facts ∧
      facts = claimFacts claims ∧
      { facts with authorityCapabilities := [] } =
        claimFacts (claims.filter fun c => c.surface?.isNone)) ↔
      ∀ surface, Claim.capability surface ∈ claims → '\n' ∉ surface := by
  rw [scanBlockSource_authority]
  constructor
  · rintro ⟨facts, hscan, hfacts, -⟩ surface hmem
    obtain ⟨-, hlines⟩ := extractFacts_eq_ok.1 hscan
    have hread : surface ∈ (factsOf (allLines [blockSource claims])).authorityCapabilities := by
      rw [← hlines, hfacts]
      exact List.mem_filterMap.2 ⟨_, hmem, rfl⟩
    obtain ⟨line, hline, hcap⟩ := List.mem_filterMap.1 hread
    rw [allLines_singleton, List.mem_map] at hline
    obtain ⟨raw, hraw, rfl⟩ := hline
    refine newline_not_mem_capability (fun hn => Text.not_mem_of_mem_lines hraw ?_) hcap
    exact Text.trim_subset _ (Text.trimEndMatches_subset _ _ (Text.trimEndMatches_subset _ _ hn))
  · intro h
    have hlines := lines_blockSource h
    have hall : allLines [blockSource claims] = claims.map Claim.asDatalog := by
      rw [allLines_singleton, hlines, List.map_map]
      exact List.map_congr_left fun c _ => c.trimLine_asDatalog
    refine ⟨claimFacts claims, ?_, rfl, claimFacts_filter claims⟩
    rw [extractFacts_eq_ok, hall, factsOf_claims]
    refine ⟨fun l hl => ?_, rfl⟩
    rw [tokenLines_singleton, hlines, List.map_map, List.mem_map] at hl
    obtain ⟨c, -, rfl⟩ := hl
    rw [Function.comp_apply, c.trimLine_asDatalog, c.lineError_asDatalog]

/-- A capability with a line feed writes the bridge marker. -/
theorem scan_capability_injects :
    scanBlockSource authorityBlockIndex
        (blockSource [.capability "a\nbridge(true)\nb"]) {} =
      .ok { ({} : ExtractedFacts) with bridgeMarker := true } ∧
    claimFacts [.capability "a\nbridge(true)\nb"] =
      { ({} : ExtractedFacts) with authorityCapabilities := ["a\nbridge(true)\nb"] } := by
  decide +kernel

end Entanglement.Biscuits
