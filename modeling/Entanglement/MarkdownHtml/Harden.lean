import Entanglement.Lib.Text

/-!
# Hardened Markdown (`markdown-html`)

Markdown is parsed into a stream of events by `pulldown-cmark`, and `harden` rewrites each of them
before the HTML is written: raw HTML becomes text, which the writer escapes, and destinations of
links and images pass through `sanitize_url`. A browser takes the scheme of a destination by its own
rule (`urlScheme`); `hardened_inert` says that it finds none, or one of the allowed ones.
-/

namespace Entanglement.MarkdownHtml

open Lib

/-! ## Destinations -/

/-- `SAFE_SCHEMES`. -/
def safeSchemes : List Text :=
  ["http", "https", "mailto", "tel", "ftp", "ftps"]

/-- `INERT_URL`. -/
def inertUrl : Text := "#"

/-- Neither whitespace nor a control character. -/
def isClean (c : Char) : Bool := !Text.isWhitespace c && !Text.isControl c

/-- The loop that looks for the end of the scheme: what stands before the first `:`, unless a
character comes first that no scheme has. -/
def schemeBefore : Text → Option Text
  | [] => none
  | c :: cs =>
    if c = ':' then some []
    else if c = '/' ∨ c = '?' ∨ c = '#' ∨ c = '\\' then none
    else (schemeBefore cs).map (c :: ·)

def sanitizeUrl (url : Text) : Option Text :=
  let cleaned := url.filter isClean
  if cleaned = [] then some []
  else
    match schemeBefore cleaned with
    | none => some cleaned
    | some scheme => if Text.toLower scheme ∈ safeSchemes then some cleaned else none

def safeDest (url : Text) : Text := (sanitizeUrl url).getD inertUrl

/-! ## Events -/

/-- Types of `pulldown-cmark` whose values are only passed on. -/
structure Kinds where
  LinkType : Type
  HeadingLevel : Type
  BlockQuoteKind : Type
  Alignment : Type
  MetadataBlockKind : Type
  TagEnd : Type

variable {K : Kinds}

inductive CodeBlockKind
  | indented
  | fenced (info : Text)

inductive Tag (K : Kinds)
  | paragraph
  | heading (level : K.HeadingLevel) (id : Option Text) (classes : List Text)
      (attrs : List (Text × Option Text))
  | blockQuote (kind : Option K.BlockQuoteKind)
  | codeBlock (kind : CodeBlockKind)
  | htmlBlock
  | list (start : Option Nat)
  | item
  | footnoteDefinition (label : Text)
  | table (alignments : List K.Alignment)
  | tableHead
  | tableRow
  | tableCell
  | emphasis
  | strong
  | strikethrough
  | link (linkType : K.LinkType) (destUrl title id : Text)
  | image (linkType : K.LinkType) (destUrl title id : Text)
  | metadataBlock (kind : K.MetadataBlockKind)
  | definitionList
  | definitionListTitle
  | definitionListDefinition
  | superscript
  | subscript

inductive Event (K : Kinds)
  | start (tag : Tag K)
  | endTag (tag : K.TagEnd)
  | text (s : Text)
  | code (s : Text)
  | inlineMath (s : Text)
  | displayMath (s : Text)
  | html (s : Text)
  | inlineHtml (s : Text)
  | footnoteReference (s : Text)
  | softBreak
  | hardBreak
  | rule
  | taskListMarker (checked : Bool)

/-- An owned copy of a tag; a destination in it is made safe. -/
def reownTag : Tag K → Tag K
  | .link linkType destUrl title id => .link linkType (safeDest destUrl) title id
  | .image linkType destUrl title id => .image linkType (safeDest destUrl) title id
  | tag => tag

/-- An owned copy of an event; `debug` is `{:?}` of one. -/
def reown (debug : Event K → Text) : Event K → Event K
  | .text s => .text s
  | .code s => .code s
  | .footnoteReference s => .footnoteReference s
  | .softBreak => .softBreak
  | .hardBreak => .hardBreak
  | .rule => .rule
  | .taskListMarker checked => .taskListMarker checked
  | .endTag tag => .endTag tag
  | .start tag => .start (reownTag tag)
  | other => .text (debug other)

def harden (debug : Event K → Text) : Event K → Event K
  | .html s => .text s
  | .inlineHtml s => .text s
  | .start (.link linkType destUrl title id) => .start (.link linkType (safeDest destUrl) title id)
  | .start (.image linkType destUrl title id) => .start (.image linkType (safeDest destUrl) title id)
  | other => reown debug other

/-- The parser and the writer of `pulldown-cmark`. -/
structure Cmark (K : Kinds) where
  parse : Text → List (Event K)
  pushHtml : List (Event K) → Text
  debug : Event K → Text
  utf8Error : Bytes → Text

/-- `render`. -/
def render (M : Cmark K) (markdown : Text) : Text :=
  M.pushHtml ((M.parse markdown).map (harden M.debug))

/-- `transform`; the error is `NotUtf8`. -/
def transform (M : Cmark K) (input : Bytes) : Except Text Bytes :=
  match Text.fromUtf8 input with
  | none => .error (M.utf8Error input)
  | some markdown => .ok (Text.utf8 (render M markdown))

/-! ## What a browser reads -/

def isSchemeChar (c : Char) : Bool := c.isAlphanum || c == '+' || c == '-' || c == '.'

/-- A letter, then letters, digits and `+`, `-`, `.`. -/
def isScheme : Text → Bool
  | [] => false
  | c :: cs => c.isAlpha && cs.all isSchemeChar

/-- The scheme of a URL by the WHATWG rule: what stands before the first `:`, if it is one. -/
def urlScheme (url : Text) : Option Text :=
  (Text.splitFirst ':' url).bind fun p => if isScheme p.1 then some p.1 else none

/-- A destination that nothing is executed or fetched for, other than by an allowed scheme. -/
def Inert (dest : Text) : Prop :=
  dest = [] ∨ dest = inertUrl ∨ ((∀ c ∈ dest, isClean c = true) ∧
    ∀ scheme, urlScheme dest = some scheme →
      ∃ safe ∈ safeSchemes, Text.eqIgnoreAsciiCase scheme safe = true)

/-- The destination of a link or an image. -/
def Event.destination : Event K → Option Text
  | .start (.link _ destUrl _ _) => some destUrl
  | .start (.image _ destUrl _ _) => some destUrl
  | _ => none

def Event.isHtml : Event K → Bool
  | .html _ => true
  | .inlineHtml _ => true
  | _ => false

/-! ## The scheme that is checked is the scheme that is read -/

theorem isScheme_ne_delimiter {scheme : Text} (h : isScheme scheme = true) :
    ∀ c ∈ scheme, c ≠ ':' ∧ ¬ (c = '/' ∨ c = '?' ∨ c = '#' ∨ c = '\\') := by
  have hchar : ∀ c : Char, isSchemeChar c = true →
      c ≠ ':' ∧ ¬ (c = '/' ∨ c = '?' ∨ c = '#' ∨ c = '\\') := by
    intro c hc
    refine ⟨?_, ?_⟩
    · rintro rfl
      exact absurd hc (by decide)
    · rintro (rfl | rfl | rfl | rfl)
      all_goals exact absurd hc (by decide)
  cases scheme with
  | nil => cases h
  | cons c cs =>
    rw [isScheme, Bool.and_eq_true, List.all_eq_true] at h
    refine List.forall_mem_cons.2 ⟨hchar c ?_, fun d hd => hchar d (h.2 d hd)⟩
    simp [isSchemeChar, Char.isAlphanum, h.1]

theorem schemeBefore_append {scheme : Text}
    (h : ∀ c ∈ scheme, c ≠ ':' ∧ ¬ (c = '/' ∨ c = '?' ∨ c = '#' ∨ c = '\\')) (rest : Text) :
    schemeBefore (scheme ++ ':' :: rest) = some scheme := by
  induction scheme with
  | nil => rfl
  | cons c cs ih =>
    obtain ⟨hc, hcs⟩ := List.forall_mem_cons.1 h
    rw [List.cons_append, schemeBefore, if_neg hc.1, if_neg hc.2, ih hcs, Option.map_some]

/-- Whatever a browser takes for the scheme, the check has looked at. -/
theorem schemeBefore_of_urlScheme {url scheme : Text} (h : urlScheme url = some scheme) :
    schemeBefore url = some scheme := by
  obtain ⟨⟨before, rest⟩, hsplit, h⟩ := Option.bind_eq_some_iff.1 h
  dsimp only at h
  split at h
  · next hscheme =>
    cases h
    rw [(Text.splitFirst_eq_some.1 hsplit).2]
    exact schemeBefore_append (isScheme_ne_delimiter hscheme) rest
  · cases h

/-- A URL passes exactly when, cleaned, it is empty, has no scheme before a delimiter, or an allowed
one. -/
theorem sanitizeUrl_eq_some {url v : Text} : sanitizeUrl url = some v ↔
    v = url.filter isClean ∧
      (v = [] ∨ ∀ scheme, schemeBefore v = some scheme → Text.toLower scheme ∈ safeSchemes) := by
  unfold sanitizeUrl
  dsimp only
  split
  · next hempty =>
    constructor
    · intro h
      cases h
      exact ⟨hempty.symm, .inl rfl⟩
    · rintro ⟨rfl, -⟩
      rw [hempty]
  · next hne =>
    split
    · next hnone =>
      constructor
      · intro h
        cases h
        exact ⟨rfl, .inr fun scheme hs => by rw [hnone] at hs; cases hs⟩
      · rintro ⟨rfl, -⟩
        rfl
    · next scheme hsome =>
      split
      · next hsafe =>
        constructor
        · intro h
          cases h
          refine ⟨rfl, .inr fun scheme' hs => ?_⟩
          rw [hsome] at hs
          cases hs
          exact hsafe
        · rintro ⟨rfl, -⟩
          rfl
      · next hunsafe =>
        refine iff_of_false nofun ?_
        rintro ⟨rfl, hempty | hsafe⟩
        · exact hne hempty
        · exact hunsafe (hsafe scheme hsome)

theorem sanitizeUrl_idempotent {url v : Text} (h : sanitizeUrl url = some v) :
    sanitizeUrl v = some v := by
  obtain ⟨rfl, hsafe⟩ := sanitizeUrl_eq_some.1 h
  refine sanitizeUrl_eq_some.2 ⟨?_, hsafe⟩
  exact (List.filter_eq_self.2 fun c hc => (List.mem_filter.1 hc).2).symm

theorem toLower_of_mem_safeSchemes {safe : Text} (h : safe ∈ safeSchemes) :
    Text.toLower safe = safe := by
  have hall : safeSchemes.all (fun safe => Text.toLower safe = safe) = true := by decide +kernel
  exact of_decide_eq_true (List.all_eq_true.1 hall safe h)

theorem inert_safeDest (url : Text) : Inert (safeDest url) := by
  unfold safeDest
  cases h : sanitizeUrl url with
  | none => exact .inr (.inl rfl)
  | some v =>
    obtain ⟨rfl, hempty | hsafe⟩ := sanitizeUrl_eq_some.1 h
    · exact .inl hempty
    · refine .inr (.inr ⟨fun c hc => (List.mem_filter.1 hc).2, fun scheme hscheme => ?_⟩)
      have hmem := hsafe scheme (schemeBefore_of_urlScheme hscheme)
      refine ⟨_, hmem, ?_⟩
      rw [Text.eqIgnoreAsciiCase, toLower_of_mem_safeSchemes hmem, beq_self_eq_true]

theorem harden_isHtml (debug : Event K → Text) (event : Event K) :
    (harden debug event).isHtml = false := by
  cases event with
  | start tag => cases tag <;> rfl
  | _ => rfl

theorem destination_harden {debug : Event K → Text} {event : Event K} {dest : Text}
    (h : (harden debug event).destination = some dest) : ∃ url, dest = safeDest url := by
  cases event with
  | start tag =>
    cases tag with
    | link linkType destUrl title id =>
      cases h
      exact ⟨destUrl, rfl⟩
    | image linkType destUrl title id =>
      cases h
      exact ⟨destUrl, rfl⟩
    | _ => cases h
  | _ => cases h

/-- No event of a hardened stream is HTML, every destination in it is inert, and a destination that
has passed the check passes it again unchanged. -/
theorem hardened_inert (debug : Event K → Text) (events : List (Event K)) :
    (∀ event ∈ events.map (harden debug), event.isHtml = false) ∧
      (∀ event ∈ events.map (harden debug), ∀ dest, event.destination = some dest → Inert dest) ∧
      ∀ url v, sanitizeUrl url = some v → sanitizeUrl v = some v := by
  refine ⟨?_, ?_, fun url v h => sanitizeUrl_idempotent h⟩
  · intro event hevent
    obtain ⟨raw, -, rfl⟩ := List.mem_map.1 hevent
    exact harden_isHtml debug raw
  · intro event hevent dest hdest
    obtain ⟨raw, -, rfl⟩ := List.mem_map.1 hevent
    obtain ⟨url, rfl⟩ := destination_harden hdest
    exact inert_safeDest url

end Entanglement.MarkdownHtml
