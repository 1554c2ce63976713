import Entanglement.Types.Ids

/-!
# Token verification (`entangle-biscuits`, `verifier.rs`)

A biscuit is modelled as the list of its block sources, as `print_block_source` returns them; the
signature chain over the blocks is checked by `biscuit-auth` before. `verify` scans every block line
by line (`scanBlockSource`), collecting facts by their textual form, and then checks expiry, holder
and capability.
-/

namespace Entanglement.Biscuits

open Lib

/-- Index of the authority block, the only one whose facts may confer grants. -/
def authorityBlockIndex : Nat := 0

structure VerifyContext where
  nowUnixSecs : Int
  localPeerId : PeerId

@[ext] structure ExtractedFacts where
  authorityCapabilities : List Text := []
  issuedTo : Option PeerId := none
  expires : Option Int := none
  destPin : Option PeerId := none
  rateLimitBps : Option Nat := none
  totalBytesCap : Option Nat := none
  bridgeMarker : Bool := false
  deriving DecidableEq

/-- What the text of a `BiscuitError::Verify` is made of. -/
inductive VerifyFailure
  | peerFact (block : Nat)
  | capabilityFact (block : Nat)
  | expired (exp now : Int)
  | issuedTo (issued localPeer : PeerId)
  | missingCapability (required : Text)
  deriving DecidableEq

inductive BiscuitError
  | verify (why : VerifyFailure)
  | malformedClaim (field : Text) (e : PeerId.ParseError)
  deriving DecidableEq

/-- Strip `pred(…)` and return the inner text, or `none` if the line does not match. -/
def stripPredicate (line pred : Text) : Option Text :=
  let opening := pred ++ ['(']
  if opening.isPrefixOf line && line.getLast? == some ')' then
    some (line.drop opening.length).dropLast
  else none

/-- Parse a quoted string term and return the unescaped content. -/
def parseStringTerm (inner : Text) : Option Text :=
  let inner := Text.trim inner
  if 2 ≤ Text.len inner ∧ inner.head? = some '"' ∧ inner.getLast? = some '"' then
    let content := (inner.drop 1).dropLast
    some (Text.replacePair '\\' '\\' ['\\'] (Text.replacePair '\\' '"' ['"'] content))
  else none

/-- The scanner's view of a source line: whitespace, trailing commas and semicolons removed. -/
def trimLine (line : Text) : Text :=
  Text.trimEndMatches ';' (Text.trimEndMatches ',' (Text.trim line))

/-- The body of the loop of `scan_block_source`, on a trimmed line. -/
def scanLine (index : Nat) (facts : ExtractedFacts) (line : Text) :
    Except BiscuitError ExtractedFacts :=
  if let some inner := stripPredicate line "peer" then
    if index ≠ authorityBlockIndex then .error (.verify (.peerFact index))
    else
      match parseStringTerm inner with
      | some hex => .ok { facts with issuedTo := (PeerId.fromHex hex).toOption }
      | none => .ok facts
  else if let some inner := stripPredicate line "capability" then
    if index ≠ authorityBlockIndex then .error (.verify (.capabilityFact index))
    else
      match parseStringTerm inner with
      | some s => .ok { facts with authorityCapabilities := facts.authorityCapabilities ++ [s] }
      | none => .ok facts
  else if let some inner := stripPredicate line "expires" then
    match Text.parseI64 (Text.trim inner) with
    | some n => .ok { facts with expires := minMerge facts.expires n }
    | none => .ok facts
  else if let some inner := stripPredicate line "dest_pin" then
    match parseStringTerm inner with
    | some hex =>
      match PeerId.fromHex hex with
      | .ok peer => .ok { facts with destPin := firstWins facts.destPin peer }
      | .error e => .error (.malformedClaim "dest_pin" e)
    | none => .ok facts
  else if let some inner := stripPredicate line "rate_limit_bps" then
    match Text.parseU64 (Text.trim inner) with
    | some n => .ok { facts with rateLimitBps := minMerge facts.rateLimitBps n }
    | none => .ok facts
  else if let some inner := stripPredicate line "total_bytes_cap" then
    match Text.parseU64 (Text.trim inner) with
    | some n => .ok { facts with totalBytesCap := minMerge facts.totalBytesCap n }
    | none => .ok facts
  else if line = "bridge(true)" then .ok { facts with bridgeMarker := true }
  else .ok facts

def scanBlockSource (index : Nat) (source : Text) (facts : ExtractedFacts) :
    Except BiscuitError ExtractedFacts :=
  (Text.lines source).foldlM (fun facts line => scanLine index facts (trimLine line)) facts

/-- The loop of `extract_facts` from block `index` on. -/
def extractFrom (index : Nat) (facts : ExtractedFacts) : List Text →
    Except BiscuitError ExtractedFacts
  | [] => .ok facts
  | source :: rest => do
    let facts ← scanBlockSource index source facts
    extractFrom (index + 1) facts rest

def extractFacts (blocks : List Text) : Except BiscuitError ExtractedFacts :=
  extractFrom 0 {} blocks

/-- The checks of `verify` on the extracted facts: expiry, holder, required capability. -/
def checkFacts (facts : ExtractedFacts) (ctx : VerifyContext) (requireCapability : Text) :
    Except BiscuitError Unit := do
  if let some exp := facts.expires then
    if exp ≤ ctx.nowUnixSecs then throw (.verify (.expired exp ctx.nowUnixSecs))
  if let some issued := facts.issuedTo then
    if issued ≠ ctx.localPeerId then throw (.verify (.issuedTo issued ctx.localPeerId))
  if requireCapability ∉ facts.authorityCapabilities then
    throw (.verify (.missingCapability requireCapability))

def verify (blocks : List Text) (ctx : VerifyContext) (requireCapability : Text) :
    Except BiscuitError ExtractedFacts := do
  let facts ← extractFacts blocks
  checkFacts facts ctx requireCapability
  return facts

/-! ## Specifications of the loops -/

theorem extractFrom_append (index : Nat) (facts : ExtractedFacts) (bs cs : List Text) :
    extractFrom index facts (bs ++ cs) =
      extractFrom index facts bs >>= fun f => extractFrom (index + bs.length) f cs := by
  induction bs generalizing index facts with
  | nil => rfl
  | cons b bs ih =>
    simp only [List.cons_append, extractFrom, bind_assoc, List.length_cons]
    congr 1
    funext f
    rw [ih, show index + 1 + bs.length = index + (bs.length + 1) by omega]

/-- What a token must satisfy for `checkFacts` to accept its facts. -/
theorem checkFacts_eq_ok {facts : ExtractedFacts} {ctx : VerifyContext} {cap : Text} :
    checkFacts facts ctx cap = .ok () ↔
      (∀ exp, facts.expires = some exp → ctx.nowUnixSecs < exp) ∧
      (∀ p, facts.issuedTo = some p → p = ctx.localPeerId) ∧ cap ∈ facts.authorityCapabilities := by
  unfold checkFacts
  cases he : facts.expires <;> cases hi : facts.issuedTo <;>
    simp [bind, Except.bind, pure, Except.pure, throw, throwThe, MonadExceptOf.throw] <;>
    split_ifs <;> simp_all

theorem verify_eq_ok {blocks : List Text} {ctx : VerifyContext} {cap : Text}
    {facts : ExtractedFacts} :
    verify blocks ctx cap = .ok facts ↔
      extractFacts blocks = .ok facts ∧ checkFacts facts ctx cap = .ok () := by
  unfold verify
  rw [except_bind_eq_ok]
  constructor
  · rintro ⟨f, hf, h⟩
    obtain ⟨u, hc, hret⟩ := except_bind_eq_ok.1 h
    cases hret
    exact ⟨hf, hc⟩
  · rintro ⟨hf, hc⟩
    exact ⟨facts, hf, by rw [hc]; rfl⟩

end Entanglement.Biscuits
