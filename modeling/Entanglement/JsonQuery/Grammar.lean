import Entanglement.JsonQuery.Path

/-!
# The documented grammar of queries

The documentation of `path` gives a grammar and says that whitespace around brackets is ignored.
`Path` is the grammar, and `unspace` deletes the whitespace next to the brackets of a query, inside
and, if asked to, outside. The scanner implements the grammar after the deletion inside
(`parsePath_eq_ok_iff_path`); it does not skip whitespace outside a bracket, where it belongs to the
name before it, becomes a name of its own or is refused.
-/

namespace Entanglement.JsonQuery

open Lib

/-! ## The grammar -/

/-- `first? rest*`; the flag says whether `first` may still come. -/
inductive Derives (bits : Nat) : Bool → Text → List Segment → Prop
  | nil {first : Bool} : Derives bits first [] []
  | dotName {first : Bool} {n t : Text} {segs : List Segment} :
      IsName n → Derives bits false t segs →
      Derives bits first ('.' :: (n ++ t)) (nameSegment n :: segs)
  | dotBracket {first : Bool} {content t : Text} {seg : Segment} {segs : List Segment} :
      Content bits content seg → Derives bits false t segs →
      Derives bits first ('.' :: '[' :: (content ++ ']' :: t)) (seg :: segs)
  | bracket {first : Bool} {content t : Text} {seg : Segment} {segs : List Segment} :
      Content bits content seg → Derives bits false t segs →
      Derives bits first ('[' :: (content ++ ']' :: t)) (seg :: segs)
  | name {n t : Text} {segs : List Segment} :
      IsName n → Derives bits false t segs → Derives bits true (n ++ t) (nameSegment n :: segs)

/-- `path := '$'? first? rest*`. A `$` at the start is the root and not part of a name. -/
inductive Path (bits : Nat) : Text → List Segment → Prop
  | root {t : Text} {segs : List Segment} : Derives bits true t segs → Path bits ('$' :: t) segs
  | relative {t : Text} {segs : List Segment} :
      t.head? ≠ some '$' → Derives bits true t segs → Path bits t segs

/-! ## Deleting whitespace next to brackets -/

/-- Where in a query a character stands. -/
inductive Mode
  | outside
  | opened
  | inside
  | quoted (quote : Char)
  | escaped (quote : Char)
  | closed

/-- After whitespace, `c` comes next. -/
def nextIs (c : Char) (t : Text) : Bool := (skipSpaces t).head? == some c

/-- Delete the whitespace after an opening and before a closing bracket; with `outer` also the
whitespace before an opening and after a closing one. Nothing is deleted between quotes. -/
def unspace (outer : Bool) : Mode → Text → Text
  | _, [] => []
  | .outside, c :: t =>
    if c = '[' then c :: unspace outer .opened t
    else if outer && Text.isWhitespace c && nextIs '[' t then unspace outer .outside t
    else c :: unspace outer .outside t
  | .opened, c :: t =>
    if Text.isWhitespace c then unspace outer .opened t
    else if c = '"' ∨ c = '\'' then c :: unspace outer (.quoted c) t
    else if c = ']' then c :: unspace outer .closed t
    else c :: unspace outer .inside t
  | .inside, c :: t =>
    if c = ']' then c :: unspace outer .closed t
    else if Text.isWhitespace c && nextIs ']' t then unspace outer .inside t
    else c :: unspace outer .inside t
  | .quoted quote, c :: t =>
    if c = '\\' then c :: unspace outer (.escaped quote) t
    else if c = quote then c :: unspace outer .inside t
    else c :: unspace outer (.quoted quote) t
  | .escaped quote, c :: t => c :: unspace outer (.quoted quote) t
  | .closed, c :: t =>
    if outer && Text.isWhitespace c then unspace outer .closed t
    else if c = '[' then c :: unspace outer .opened t
    else c :: unspace outer .outside t

example : unspace true .outside "a [ 0 ] .b[ \" [ \" ]" = "a[0].b[\" [ \"]" := by
  decide +kernel

example : unspace false .outside "a [ 0 ] .b" = "a [0] .b" := by decide +kernel

theorem nextIs_append {w t : Text} (hw : Spaces w) (c : Char) : nextIs c (w ++ t) = nextIs c t := by
  rw [nextIs, skipSpaces, List.dropWhile_append_of_pos hw]
  rfl

variable {c : Char} {u n : Text}

theorem nextIs_cons {d : Char} {t : Text} (h : Text.isWhitespace d = false) :
    nextIs c (d :: t) = (d == c) := by
  rw [nextIs, skipSpaces, List.dropWhile_cons_of_neg (by simp [h])]
  rfl

theorem isNameChar_eq_false : isNameChar c = false ↔ c = '.' ∨ c = '[' := by
  simp [isNameChar, imp_iff_or_not, or_comm]

section Steps
variable (outer : Bool)

@[simp] theorem unspace_nil (mode : Mode) : unspace outer mode [] = [] := by cases mode <;> rfl

theorem unspace_cons_outside (c : Char) (t : Text) : unspace outer .outside (c :: t) =
    if c = '[' then c :: unspace outer .opened t
    else if outer && Text.isWhitespace c && nextIs '[' t then unspace outer .outside t
    else c :: unspace outer .outside t := rfl

theorem unspace_cons_opened (c : Char) (t : Text) : unspace outer .opened (c :: t) =
    if Text.isWhitespace c then unspace outer .opened t
    else if c = '"' ∨ c = '\'' then c :: unspace outer (.quoted c) t
    else if c = ']' then c :: unspace outer .closed t
    else c :: unspace outer .inside t := rfl

theorem unspace_cons_inside (c : Char) (t : Text) : unspace outer .inside (c :: t) =
    if c = ']' then c :: unspace outer .closed t
    else if Text.isWhitespace c && nextIs ']' t then unspace outer .inside t
    else c :: unspace outer .inside t := rfl

theorem unspace_cons_quoted (quote c : Char) (t : Text) : unspace outer (.quoted quote) (c :: t) =
    if c = '\\' then c :: unspace outer (.escaped quote) t
    else if c = quote then c :: unspace outer .inside t
    else c :: unspace outer (.quoted quote) t := rfl

theorem unspace_cons_escaped (quote c : Char) (t : Text) :
    unspace outer (.escaped quote) (c :: t) = c :: unspace outer (.quoted quote) t := rfl

theorem unspace_cons_closed (c : Char) (t : Text) : unspace outer .closed (c :: t) =
    if outer && Text.isWhitespace c then unspace outer .closed t
    else if c = '[' then c :: unspace outer .opened t
    else c :: unspace outer .outside t := rfl

end Steps

section Unspace
variable {outer : Bool} {bits : Nat}

theorem unspace_dot (t : Text) :
    unspace outer .outside ('.' :: t) = '.' :: unspace outer .outside t := by
  have hspace : Text.isWhitespace '.' = false := rfl
  rw [unspace_cons_outside, if_neg (by decide), hspace, Bool.and_false, Bool.false_and, if_neg (by decide)]

theorem unspace_bracket (t : Text) :
    unspace outer .outside ('[' :: t) = '[' :: unspace outer .opened t := by
  rw [unspace_cons_outside, if_pos rfl]

/-- A closing bracket makes no difference to what goes on with a dot, a bracket or not at all. -/
theorem unspace_closed {t : Text} (h : Stops isNameChar t) :
    unspace outer .closed t = unspace outer .outside t := by
  cases t with
  | nil => rfl
  | cons c t =>
    rcases isNameChar_eq_false.1 (stops_cons.1 h) with rfl | rfl
    · have hspace : Text.isWhitespace '.' = false := rfl
      rw [unspace_dot, unspace_cons_closed, hspace, Bool.and_false, if_neg (by decide), if_neg (by decide)]
    · have hspace : Text.isWhitespace '[' = false := rfl
      rw [unspace_bracket, unspace_cons_closed, hspace, Bool.and_false, if_neg (by decide), if_pos rfl]

theorem unspace_opened_spaces {w : Text} (hw : Spaces w) (t : Text) :
    unspace outer .opened (w ++ t) = unspace outer .opened t := by
  induction w with
  | nil => rfl
  | cons c w ih =>
    obtain ⟨hc, hw⟩ := List.forall_mem_cons.1 hw
    rw [List.cons_append, unspace_cons_opened, if_pos hc, ih hw]

theorem unspace_inside_spaces {w : Text} (hw : Spaces w) (t : Text) :
    unspace outer .inside (w ++ ']' :: t) = ']' :: unspace outer .closed t := by
  induction w with
  | nil => rw [List.nil_append, unspace_cons_inside, if_pos rfl]
  | cons c w ih =>
    obtain ⟨hc, hw⟩ := List.forall_mem_cons.1 hw
    have hne : c ≠ ']' := by
      rintro rfl
      exact absurd hc (by decide)
    have hnext : nextIs ']' (w ++ ']' :: t) = true := by
      rw [nextIs_append hw, nextIs_cons rfl]
      rfl
    rw [List.cons_append, unspace_cons_inside, if_neg hne, hc, hnext, if_pos (by decide), ih hw]

/-- A character that is no whitespace and does not close the bracket. -/
def isPlain (c : Char) : Bool := !Text.isWhitespace c && c != ']'

theorem unspace_inside_plain {x : Text} (hx : ∀ c ∈ x, isPlain c = true) (t : Text) :
    unspace outer .inside (x ++ t) = x ++ unspace outer .inside t := by
  induction x with
  | nil => rfl
  | cons c x ih =>
    obtain ⟨hc, hx⟩ := List.forall_mem_cons.1 hx
    simp only [isPlain, Bool.and_eq_true, Bool.not_eq_true', bne_iff_ne] at hc
    rw [List.cons_append, unspace_cons_inside, if_neg hc.2, hc.1, Bool.false_and, if_neg (by decide), ih hx]
    rfl

theorem unspace_quoted {quote : Char} (hquote : quote ≠ '\\') {body key : Text}
    (h : KeyBody quote body key) (t : Text) :
    unspace outer (.quoted quote) (body ++ quote :: t) =
      body ++ quote :: unspace outer .inside t := by
  induction h with
  | nil => rw [List.nil_append, unspace_cons_quoted, if_neg hquote, if_pos rfl]; rfl
  | escaped c _ ih => rw [List.cons_append, List.cons_append, unspace_cons_quoted, if_pos rfl,
    unspace_cons_escaped, ih]; rfl
  | plain hc hq _ ih => rw [List.cons_append, unspace_cons_quoted, if_neg hc, if_neg hq, ih]; rfl

theorem isPlain_of_isDigit (h : c.isDigit = true) : isPlain c = true := by
  have hne : c ≠ ']' := by
    rintro rfl
    exact absurd h (by decide)
  simp [isPlain, Text.isWhitespace_of_isDigit h, hne]

/-- A character that opens neither quotes nor ends the bracket is inside. -/
theorem unspace_opened_plain (hc : isPlain c = true) (hq : ¬ (c = '"' ∨ c = '\'')) (t : Text) :
    unspace outer .opened (c :: t) = c :: unspace outer .inside t := by
  simp only [isPlain, Bool.and_eq_true, Bool.not_eq_true', bne_iff_ne] at hc
  rw [unspace_cons_opened, hc.1, if_neg (by decide), if_neg hq, if_neg hc.2]

theorem unspace_opened_quote (hq : c = '"' ∨ c = '\'') (t : Text) :
    unspace outer .opened (c :: t) = c :: unspace outer (.quoted c) t := by
  have hspace : Text.isWhitespace c = false := by rcases hq with rfl | rfl <;> rfl
  rw [unspace_cons_opened, hspace, if_neg (by decide), if_pos hq]

/-- The whitespace in a bracket is deleted, and nothing else. -/
theorem unspace_group {g : Text} {seg : Segment} (h : Group bits g seg) :
    ∃ content, Content bits content seg ∧ ∀ (outer : Bool) (t : Text),
      unspace outer .outside (g ++ t) = '[' :: (content ++ ']' :: unspace outer .closed t) := by
  obtain ⟨hw, hc, hw'⟩ := h
  refine ⟨_, hc, fun outer t => ?_⟩
  rename_i w content w'
  have hassoc : '[' :: (w ++ (content ++ (w' ++ [']']))) ++ t =
      '[' :: (w ++ (content ++ (w' ++ ']' :: t))) := by simp
  rw [hassoc, unspace_bracket, unspace_opened_spaces hw]
  congr 1
  have hquoted : ∀ {quote : Char} {body key : Text}, (quote = '"' ∨ quote = '\'') →
      KeyBody quote body key →
      unspace outer .opened (quote :: body ++ [quote] ++ (w' ++ ']' :: t)) =
        quote :: body ++ [quote] ++ ']' :: unspace outer .closed t := by
    intro quote body key hquote hbody
    have hne : quote ≠ '\\' := by rcases hquote with rfl | rfl <;> decide
    have hopen : unspace outer .opened (quote :: (body ++ quote :: (w' ++ ']' :: t))) =
        quote :: (body ++ quote :: ']' :: unspace outer .closed t) := by
      rw [unspace_opened_quote hquote, unspace_quoted hne hbody, unspace_inside_spaces hw']
    simpa using hopen
  cases hc with
  | @index digits i hi hlt =>
    obtain ⟨hne, hdigits⟩ := isDigit_of_parseDigits hi
    obtain ⟨d, ds, rfl⟩ := List.exists_cons_of_ne_nil hne
    obtain ⟨hd, hds⟩ := List.forall_mem_cons.1 hdigits
    rw [List.cons_append, unspace_opened_plain (isPlain_of_isDigit hd) (not_quote_of_isDigit hd),
      unspace_inside_plain fun c hc => isPlain_of_isDigit (hds c hc), unspace_inside_spaces hw']
    rfl
  | wildcard =>
    rw [List.cons_append, unspace_opened_plain rfl (by decide), List.nil_append,
      unspace_inside_spaces hw']
    rfl
  | doubleQuoted hbody => exact hquoted (.inl rfl) hbody
  | singleQuoted hbody => exact hquoted (.inr rfl) hbody

/-! ## Where a text without whitespace in brackets comes from -/

theorem exists_of_unspace_inside {t x : Text} (hx : ∀ c ∈ x, isPlain c = true)
    (h : unspace outer .inside t = x ++ ']' :: u) :
    ∃ w rest, Spaces w ∧ t = x ++ (w ++ ']' :: rest) ∧ u = unspace outer .closed rest := by
  induction t generalizing x with
  | nil => simp at h
  | cons c t ih =>
    rw [unspace_cons_inside] at h
    split at h
    · next hc =>
      -- the first closing bracket of the output is this one
      cases x with
      | nil =>
        cases h
        exact ⟨[], t, nofun, by rw [hc]; rfl, rfl⟩
      | cons d x =>
        obtain ⟨rfl, -⟩ := List.cons.inj h
        have hd := hx c List.mem_cons_self
        rw [hc] at hd
        exact absurd hd (by decide)
    · next hc =>
      split at h
      · next hskip =>
        rw [Bool.and_eq_true] at hskip
        obtain ⟨w, rest, hw, rfl, hu⟩ := ih hx h
        cases x with
        | nil => exact ⟨c :: w, rest, List.forall_mem_cons.2 ⟨hskip.1, hw⟩, rfl, hu⟩
        | cons d x =>
          -- a closing bracket cannot follow where `d` does
          have hd := hx d List.mem_cons_self
          simp only [isPlain, Bool.and_eq_true, Bool.not_eq_true', bne_iff_ne] at hd
          have hnext := hskip.2
          rw [List.cons_append, nextIs_cons hd.1, beq_iff_eq] at hnext
          exact absurd hnext hd.2
      · cases x with
        | nil =>
          obtain ⟨rfl, -⟩ := List.cons.inj h
          exact absurd rfl hc
        | cons d x =>
          obtain ⟨rfl, htail⟩ := List.cons.inj h
          obtain ⟨w, rest, hw, rfl, hu⟩ := ih (List.forall_mem_cons.1 hx).2 htail
          exact ⟨w, rest, hw, rfl, hu⟩

variable (outer) in
theorem unspace_quoted_cons (quote c : Char) (t : Text) :
    ∃ u, unspace outer (.quoted quote) (c :: t) = c :: u := by
  rw [unspace_cons_quoted]
  split
  · exact ⟨_, rfl⟩
  · split
    · exact ⟨_, rfl⟩
    · exact ⟨_, rfl⟩

theorem exists_of_unspace_quoted {quote : Char} (hquote : quote ≠ '\\') {body key : Text}
    (hbody : KeyBody quote body key) {t v : Text}
    (h : unspace outer (.quoted quote) t = body ++ quote :: v) :
    ∃ rest, t = body ++ quote :: rest ∧ v = unspace outer .inside rest := by
  induction hbody generalizing t with
  | nil =>
    cases t with
    | nil => simp at h
    | cons c t =>
      obtain ⟨u, hu⟩ := unspace_quoted_cons outer quote c t
      obtain rfl : c = quote := (List.cons.inj (hu.symm.trans h)).1
      rw [unspace_cons_quoted, if_neg hquote, if_pos rfl] at h
      exact ⟨t, rfl, (List.cons.inj h).2.symm⟩
  | escaped d _ ih =>
    cases t with
    | nil => simp at h
    | cons c t =>
      obtain ⟨u, hu⟩ := unspace_quoted_cons outer quote c t
      obtain rfl : c = '\\' := (List.cons.inj (hu.symm.trans h)).1
      rw [unspace_cons_quoted, if_pos rfl] at h
      cases t with
      | nil => simp at h
      | cons c t =>
        rw [unspace_cons_escaped] at h
        obtain ⟨rfl, htail⟩ := List.cons.inj (List.cons.inj h).2
        obtain ⟨rest, rfl, hv⟩ := ih htail
        exact ⟨rest, rfl, hv⟩
  | @plain d body key hd hq _ ih =>
    cases t with
    | nil => simp at h
    | cons c t =>
      obtain ⟨u, hu⟩ := unspace_quoted_cons outer quote c t
      obtain rfl : c = d := (List.cons.inj (hu.symm.trans h)).1
      rw [unspace_cons_quoted, if_neg hd, if_neg hq] at h
      obtain ⟨rest, rfl, hv⟩ := ih (List.cons.inj h).2
      exact ⟨rest, rfl, hv⟩

variable (outer) in
theorem unspace_opened_cons (hc : Text.isWhitespace c = false) (t : Text) :
    ∃ u, unspace outer .opened (c :: t) = c :: u := by
  rw [unspace_cons_opened, hc, if_neg (by decide)]
  split
  · exact ⟨_, rfl⟩
  · split
    · exact ⟨_, rfl⟩
    · exact ⟨_, rfl⟩

theorem exists_of_unspace_opened {t content : Text} {seg : Segment}
    (hcontent : Content bits content seg) (h : unspace outer .opened t = content ++ ']' :: u) :
    ∃ w w' rest, Spaces w ∧ Spaces w' ∧ t = w ++ (content ++ (w' ++ ']' :: rest)) ∧
      u = unspace outer .closed rest := by
  obtain ⟨w, hw, ht, hstop⟩ := exists_spaces t
  suffices hafter : ∃ w' rest, Spaces w' ∧ skipSpaces t = content ++ (w' ++ ']' :: rest) ∧
      u = unspace outer .closed rest by
    obtain ⟨w', rest, hw', hskip, hu⟩ := hafter
    exact ⟨w, w', rest, hw, hw', by rw [← hskip]; exact ht, hu⟩
  rw [ht, unspace_opened_spaces hw] at h
  cases hskip : skipSpaces t with
  | nil =>
    rw [hskip] at h
    simp at h
  | cons c t' =>
    rw [hskip] at h hstop
    -- the first character is copied, so that it is the first one of the content
    obtain ⟨v, hv⟩ := unspace_opened_cons outer (stops_cons.1 hstop) t'
    have hquoted : ∀ {quote : Char} {body key : Text}, (quote = '"' ∨ quote = '\'') →
        KeyBody quote body key →
        unspace outer .opened (c :: t') = quote :: body ++ [quote] ++ ']' :: u →
        ∃ w' rest, Spaces w' ∧ c :: t' = quote :: body ++ [quote] ++ (w' ++ ']' :: rest) ∧
          u = unspace outer .closed rest := by
      intro quote body key hquote hbody h
      have hne : quote ≠ '\\' := by rcases hquote with rfl | rfl <;> decide
      obtain rfl : c = quote := (List.cons.inj (hv.symm.trans h)).1
      rw [unspace_opened_quote hquote] at h
      have htail : unspace outer (.quoted c) t' = body ++ c :: ']' :: u := by
        simpa using (List.cons.inj h).2
      obtain ⟨rest, rfl, hinside⟩ := exists_of_unspace_quoted hne hbody htail
      obtain ⟨w', rest', hw', rfl, hu⟩ :=
        exists_of_unspace_inside (x := []) (fun _ hc => absurd hc List.not_mem_nil) hinside.symm
      exact ⟨w', rest', hw', by simp, hu⟩
    cases hcontent with
    | @index digits i hi hlt =>
      obtain ⟨hne, hdigits⟩ := isDigit_of_parseDigits hi
      obtain ⟨d, ds, rfl⟩ := List.exists_cons_of_ne_nil hne
      obtain ⟨hd, hds⟩ := List.forall_mem_cons.1 hdigits
      obtain rfl : c = d := (List.cons.inj (hv.symm.trans h)).1
      rw [unspace_opened_plain (isPlain_of_isDigit hd) (not_quote_of_isDigit hd)] at h
      obtain ⟨w', rest, hw', rfl, hu⟩ :=
        exists_of_unspace_inside (fun c hc => isPlain_of_isDigit (hds c hc)) (List.cons.inj h).2
      exact ⟨w', rest, hw', rfl, hu⟩
    | wildcard =>
      obtain rfl : c = '*' := (List.cons.inj (hv.symm.trans h)).1
      rw [unspace_opened_plain rfl (by decide)] at h
      obtain ⟨w', rest, hw', rfl, hu⟩ :=
        exists_of_unspace_inside (x := []) (fun _ hc => absurd hc List.not_mem_nil)
          (List.cons.inj h).2
      exact ⟨w', rest, hw', rfl, hu⟩
    | doubleQuoted hbody => exact hquoted (.inl rfl) hbody h
    | singleQuoted hbody => exact hquoted (.inr rfl) hbody h

end Unspace

/-! ## The scanner and the grammar -/

section Scanner
variable {bits : Nat} {first : Bool} {t : Text} {segs : List Segment}

theorem Turns.stops (h : Turns bits false t segs) : Stops isNameChar t := by
  generalize hfirst : false = first at h
  cases h with
  | nil => exact stops_nil
  | cons hturn _ =>
    cases hturn with
    | dotName => exact stops_cons.2 rfl
    | dotGroup => exact stops_cons.2 rfl
    | group hg =>
      cases hg
      exact stops_cons.2 rfl
    | name => cases hfirst

theorem Derives.stops (h : Derives bits false t segs) : Stops isNameChar t := by
  cases h with
  | nil => exact stops_nil
  | dotName => exact stops_cons.2 rfl
  | dotBracket => exact stops_cons.2 rfl
  | bracket => exact stops_cons.2 rfl

theorem unspace_false_cons (hc : c ≠ '[') (t : Text) :
    unspace false .outside (c :: t) = c :: unspace false .outside t := by
  rw [unspace_cons_outside, if_neg hc, Bool.false_and, Bool.false_and, if_neg (by decide)]

theorem unspace_false_name (hn : ∀ c ∈ n, isNameChar c = true) (t : Text) :
    unspace false .outside (n ++ t) = n ++ unspace false .outside t := by
  induction n with
  | nil => rfl
  | cons c n ih =>
    obtain ⟨hc, hn⟩ := List.forall_mem_cons.1 hn
    have hne : c ≠ '[' := by
      rintro rfl
      exact absurd hc (by decide)
    rw [List.cons_append, unspace_false_cons hne, ih hn]
    rfl

/-- What the scanner reads is derived, once the whitespace in brackets is deleted. -/
theorem Turns.derives (h : Turns bits first t segs) :
    Derives bits first (unspace false .outside t) segs := by
  induction h with
  | nil => exact .nil
  | cons hturn hturns ih =>
    cases hturn with
    | dotName hn hstop =>
      rw [unspace_dot, unspace_false_name hn.chars]
      exact .dotName hn ih
    | dotGroup hg =>
      obtain ⟨content, hcontent, heq⟩ := unspace_group hg
      rw [unspace_dot, heq, unspace_closed hturns.stops]
      exact .dotBracket hcontent ih
    | group hg =>
      obtain ⟨content, hcontent, heq⟩ := unspace_group hg
      rw [heq, unspace_closed hturns.stops]
      exact .bracket hcontent ih
    | name hn hstop =>
      rw [unspace_false_name hn.chars]
      exact .name hn ih

theorem head_unspace_false (t : Text) : (unspace false .outside t).head? = t.head? := by
  cases t with
  | nil => rfl
  | cons c t =>
    by_cases hc : c = '['
    · rw [hc, unspace_bracket]
      rfl
    · rw [unspace_false_cons hc]
      rfl

theorem head_unspace_false_closed (t : Text) : (unspace false .closed t).head? = t.head? := by
  cases t with
  | nil => rfl
  | cons c t =>
    rw [unspace_cons_closed, Bool.false_and, if_neg (by decide)]
    split
    · rfl
    · rfl

theorem exists_of_unspace_false_dot (h : unspace false .outside t = '.' :: u) :
    ∃ t', t = '.' :: t' ∧ unspace false .outside t' = u := by
  have hhead := head_unspace_false t
  rw [h] at hhead
  obtain ⟨t', rfl⟩ := List.head?_eq_some_iff.1 hhead.symm
  rw [unspace_dot] at h
  exact ⟨t', rfl, (List.cons.inj h).2⟩

theorem exists_of_unspace_false_name (hn : ∀ c ∈ n, isNameChar c = true) {t : Text}
    (h : unspace false .outside t = n ++ u) :
    ∃ rest, t = n ++ rest ∧ u = unspace false .outside rest := by
  induction n generalizing t with
  | nil => exact ⟨t, rfl, h.symm⟩
  | cons c n ih =>
    obtain ⟨hc, hn⟩ := List.forall_mem_cons.1 hn
    have hhead := head_unspace_false t
    rw [h] at hhead
    obtain ⟨t', rfl⟩ := List.head?_eq_some_iff.1 hhead.symm
    have hne : c ≠ '[' := by
      rintro rfl
      exact absurd hc (by decide)
    rw [unspace_false_cons hne] at h
    obtain ⟨rest, rfl, hu⟩ := ih hn (List.cons.inj h).2
    exact ⟨rest, rfl, hu⟩

/-- A bracket of the text without whitespace in brackets is a bracket of the query. -/
theorem exists_of_unspace_false_bracket {content : Text} {seg : Segment}
    (hcontent : Content bits content seg) (hstop : Stops isNameChar u)
    (h : unspace false .outside t = '[' :: (content ++ ']' :: u)) :
    ∃ g rest, Group bits g seg ∧ t = g ++ rest ∧ u = unspace false .outside rest := by
  have hhead := head_unspace_false t
  rw [h] at hhead
  obtain ⟨t', rfl⟩ := List.head?_eq_some_iff.1 hhead.symm
  rw [unspace_bracket] at h
  obtain ⟨w, w', rest, hw, hw', rfl, hu⟩ := exists_of_unspace_opened hcontent (List.cons.inj h).2
  have hrest : Stops isNameChar rest := by
    rw [Stops, ← head_unspace_false_closed, ← hu]
    exact hstop
  rw [unspace_closed hrest] at hu
  exact ⟨_, rest, .mk hw hcontent hw', by simp, hu⟩

theorem Derives.turns (h : Derives bits first u segs) (ht : unspace false .outside t = u) :
    Turns bits first t segs := by
  induction h generalizing t with
  | nil =>
    have hhead := head_unspace_false t
    rw [ht] at hhead
    rw [List.head?_eq_none_iff.1 hhead.symm]
    exact .nil
  | dotName hn hrest ih =>
    obtain ⟨t', rfl, ht'⟩ := exists_of_unspace_false_dot ht
    obtain ⟨rest, rfl, hu⟩ := exists_of_unspace_false_name hn.chars ht'
    have hturns := ih hu.symm
    exact .cons (.dotName hn hturns.stops) hturns
  | dotBracket hcontent hrest ih =>
    obtain ⟨t', rfl, ht'⟩ := exists_of_unspace_false_dot ht
    obtain ⟨g, rest, hg, rfl, hu⟩ := exists_of_unspace_false_bracket hcontent hrest.stops ht'
    exact .cons (.dotGroup hg) (ih hu.symm)
  | bracket hcontent hrest ih =>
    obtain ⟨g, rest, hg, rfl, hu⟩ := exists_of_unspace_false_bracket hcontent hrest.stops ht
    exact .cons (.group hg) (ih hu.symm)
  | name hn hrest ih =>
    obtain ⟨rest, rfl, hu⟩ := exists_of_unspace_false_name hn.chars ht
    have hturns := ih hu.symm
    exact .cons (.name hn hturns.stops) hturns

end Scanner

/-! ## Whitespace outside brackets -/

section Outside
variable {bits : Nat} {first : Bool} {t : Text} {segs : List Segment}

theorem unspace_true_spaces {w : Text} (hw : Spaces w) (t : Text) :
    unspace true .outside (w ++ '[' :: t) = unspace true .outside ('[' :: t) := by
  induction w with
  | nil => rfl
  | cons c w ih =>
    obtain ⟨hc, hw⟩ := List.forall_mem_cons.1 hw
    have hne : c ≠ '[' := by
      rintro rfl
      exact absurd hc (by decide)
    have hnext : nextIs '[' (w ++ '[' :: t) = true := by
      rw [nextIs_append hw, nextIs_cons rfl]
      rfl
    rw [List.cons_append, unspace_cons_outside, if_neg hne, hc, hnext, if_pos (by decide), ih hw]

/-- A name is copied when no bracket comes after whitespace at its end. -/
theorem unspace_true_name (hn : ∀ c ∈ n, isNameChar c = true)
    (h : nextIs '[' t = true → ∀ c, n.getLast? = some c → Text.isWhitespace c = false) :
    unspace true .outside (n ++ t) = n ++ unspace true .outside t := by
  induction n with
  | nil => rfl
  | cons c n ih =>
    obtain ⟨hc, hn⟩ := List.forall_mem_cons.1 hn
    have hne : c ≠ '[' := by
      rintro rfl
      exact absurd hc (by decide)
    have hkept : (Text.isWhitespace c && nextIs '[' (n ++ t)) = false := by
      rw [Bool.and_eq_false_imp]
      intro hspace
      obtain ⟨w, b, rfl, hw, hb, -, -⟩ := exists_run Text.isWhitespace n
      rw [List.append_assoc, nextIs_append hw]
      cases b with
      | nil =>
        -- nothing but whitespace from here to the end of the name
        rw [Bool.eq_false_iff]
        intro hnext
        have hall : Spaces (c :: w) := List.forall_mem_cons.2 ⟨hspace, hw⟩
        rw [List.append_nil] at h
        have hlast := h hnext _ (List.getLast?_eq_some_getLast (List.cons_ne_nil c w))
        rw [hall _ (List.getLast_mem _)] at hlast
        cases hlast
      | cons d b =>
        rw [List.cons_append, nextIs_cons (stops_cons.1 hb), beq_eq_false_iff_ne]
        rintro rfl
        exact absurd (hn '[' (by simp)) (by decide)
    have hrest : nextIs '[' t = true → ∀ d, n.getLast? = some d → Text.isWhitespace d = false := by
      intro hnext d hd
      refine h hnext d ?_
      rw [List.getLast?_cons, hd]
      rfl
    rw [List.cons_append, unspace_cons_outside, if_neg hne, Bool.true_and, hkept, if_neg (by decide),
      ih hn hrest]
    rfl

/-- A name loses the whitespace at its end, if a bracket follows. -/
theorem exists_unspace_true_name (hn : ∀ c ∈ n, isNameChar c = true) (hstop : Stops isNameChar t) :
    ∃ n' w, n = n' ++ w ∧ (w ≠ [] → ∃ r, t = '[' :: r) ∧
      unspace true .outside (n ++ t) = n' ++ unspace true .outside t := by
  by_cases hbracket : ∃ r, t = '[' :: r
  · obtain ⟨r, rfl⟩ := hbracket
    refine ⟨n.rdropWhile Text.isWhitespace, n.rtakeWhile Text.isWhitespace,
      (List.rdropWhile_append_rtakeWhile ..).symm, fun _ => ⟨r, rfl⟩, ?_⟩
    have hw : Spaces (n.rtakeWhile Text.isWhitespace) := fun c hc => List.mem_rtakeWhile_imp hc
    have hkept : ∀ c ∈ n.rdropWhile Text.isWhitespace, isNameChar c = true := fun c hc =>
      hn c ((List.rdropWhile_prefix _ _).subset hc)
    have hlast : ∀ c, (n.rdropWhile Text.isWhitespace).getLast? = some c →
        Text.isWhitespace c = false := by
      intro c hc
      have hne : n.rdropWhile Text.isWhitespace ≠ [] := fun h => by simp [h] at hc
      rw [List.getLast?_eq_some_getLast hne] at hc
      cases hc
      simpa using List.rdropWhile_last_not Text.isWhitespace n hne
    have hsplit : n ++ '[' :: r = n.rdropWhile Text.isWhitespace ++
        (n.rtakeWhile Text.isWhitespace ++ '[' :: r) := by
      rw [← List.append_assoc, List.rdropWhile_append_rtakeWhile]
    rw [hsplit, unspace_true_name hkept fun _ => hlast, unspace_true_spaces hw]
  · refine ⟨n, [], (List.append_nil n).symm, fun h => absurd rfl h, unspace_true_name hn ?_⟩
    intro hnext
    cases t with
    | nil => cases hnext
    | cons c t =>
      rcases isNameChar_eq_false.1 (stops_cons.1 hstop) with rfl | rfl
      · cases hnext
      · exact absurd ⟨t, rfl⟩ hbracket

theorem nameSegment_injective : Function.Injective nameSegment := by
  intro a b h
  unfold nameSegment at h
  split at h
  · next ha =>
    split at h
    · next hb => rw [ha, hb]
    · cases h
  · split at h
    · cases h
    · cases h
      rfl

theorem Derives.toFirst (h : Derives bits false t segs) : Derives bits first t segs := by
  cases h with
  | nil => exact .nil
  | dotName hn h => exact .dotName hn h
  | dotBracket hc h => exact .dotBracket hc h
  | bracket hc h => exact .bracket hc h

theorem Derives.dot_bracket (h : Derives bits false ('[' :: u) segs) :
    Derives bits first ('.' :: '[' :: u) segs := by
  cases h with
  | bracket hc h => exact .dotBracket hc h

/-- The segments that the documentation gives to what the scanner reads: there are not more of them,
and they are the same only if no whitespace stands outside a bracket. -/
structure Documented (bits : Nat) (first : Bool) (t : Text) (segs segs' : List Segment) : Prop where
  derives : Derives bits first (unspace true .outside t) segs'
  length_le : segs'.length ≤ segs.length
  tight : segs' = segs → unspace true .outside t = unspace false .outside t

/-- A name before what is documented, with a dot or, at the start, without. -/
theorem Documented.name (first : Bool) {rest : Text} {segs' : List Segment} (hn : IsName n)
    (hstop : Stops isNameChar rest) (h : Documented bits false rest segs segs') :
    (∃ segs', Documented bits true (n ++ rest) (nameSegment n :: segs) segs') ∧
      ∃ segs', Documented bits first ('.' :: (n ++ rest)) (nameSegment n :: segs) segs' := by
  obtain ⟨n', w, rfl, hw, htrue⟩ := exists_unspace_true_name hn.chars hstop
  have hfalse := unspace_false_name hn.chars rest
  by_cases hne : n' = []
  · -- all of it is whitespace, which is deleted
    subst hne
    obtain ⟨r, rfl⟩ := hw hn.ne_nil
    have hlonger : ∀ {seg : Segment}, segs' ≠ seg :: segs := by
      rintro seg rfl
      exact absurd h.length_le (by simp)
    have hder := h.derives
    rw [List.nil_append] at htrue hfalse hn ⊢
    refine ⟨⟨segs', ?_, Nat.le_succ_of_le h.length_le, fun heq => absurd heq hlonger⟩, segs', ?_,
      Nat.le_succ_of_le h.length_le, fun heq => absurd heq hlonger⟩
    · rw [htrue]
      exact hder.toFirst
    · rw [unspace_dot, htrue, List.nil_append, unspace_bracket]
      rw [unspace_bracket] at hder
      exact hder.dot_bracket
  · have hname : IsName n' := ⟨hne, fun c hc => hn.chars c (List.mem_append_left _ hc)⟩
    have htight : nameSegment n' :: segs' = nameSegment (n' ++ w) :: segs →
        unspace true .outside (n' ++ w ++ rest) = unspace false .outside (n' ++ w ++ rest) := by
      intro heq
      obtain ⟨hseg, hsegs⟩ := List.cons.inj heq
      rw [htrue, hfalse, ← nameSegment_injective hseg, h.tight hsegs]
    refine ⟨⟨nameSegment n' :: segs', ?_, Nat.succ_le_succ h.length_le, htight⟩,
      nameSegment n' :: segs', ?_, Nat.succ_le_succ h.length_le, fun heq => ?_⟩
    · rw [htrue]
      exact .name hname h.derives
    · rw [unspace_dot, htrue]
      exact .dotName hname h.derives
    · rw [unspace_dot, unspace_dot, htight heq]

theorem Turns.documented (h : Turns bits first t segs) :
    ∃ segs', Documented bits first t segs segs' := by
  induction h with
  | nil => exact ⟨[], .nil, Nat.le_refl _, fun _ => rfl⟩
  | @cons first t rest seg segs hturn hturns ih =>
    obtain ⟨segs', ih⟩ := ih
    cases hturn with
    | dotName hn hstop => exact (ih.name _ hn hstop).2
    | dotGroup hg =>
      obtain ⟨content, hcontent, heq⟩ := unspace_group hg
      refine ⟨seg :: segs', ?_, Nat.succ_le_succ ih.length_le, fun hsegs => ?_⟩
      · rw [unspace_dot, heq, unspace_closed hturns.stops]
        exact .dotBracket hcontent ih.derives
      · rw [unspace_dot, unspace_dot, heq, heq, unspace_closed hturns.stops,
          unspace_closed hturns.stops, ih.tight (List.cons.inj hsegs).2]
    | group hg =>
      obtain ⟨content, hcontent, heq⟩ := unspace_group hg
      refine ⟨seg :: segs', ?_, Nat.succ_le_succ ih.length_le, fun hsegs => ?_⟩
      · rw [heq, unspace_closed hturns.stops]
        exact .bracket hcontent ih.derives
      · rw [heq, heq, unspace_closed hturns.stops, unspace_closed hturns.stops,
          ih.tight (List.cons.inj hsegs).2]
    | name hn hstop => exact (ih.name true hn hstop).1

end Outside

/-! ## Queries -/

theorem afterRoot_of_head {t : Text} (h : t.head? ≠ some '$') : afterRoot t = t := by
  unfold afterRoot
  split
  · exact absurd rfl h
  · rfl

theorem unspace_root (outer : Bool) (t : Text) :
    unspace outer .outside ('$' :: t) = '$' :: unspace outer .outside t := by
  have hspace : Text.isWhitespace '$' = false := rfl
  rw [unspace_cons_outside, if_neg (by decide), hspace, Bool.and_false, Bool.false_and, if_neg (by decide)]

/-- The deletion brings no `$` to the front. -/
theorem head_unspace_ne_root (outer : Bool) {t : Text} (h : t.head? ≠ some '$') :
    (unspace outer .outside t).head? ≠ some '$' := by
  cases t with
  | nil => exact h
  | cons c t =>
    rw [unspace_cons_outside]
    split
    · next hc =>
      rw [hc]
      exact fun hroot => by cases hroot
    · split
      · next hskip =>
        simp only [Bool.and_eq_true] at hskip
        obtain ⟨⟨rfl, -⟩, hnext⟩ := hskip
        obtain ⟨w, hw, ht, -⟩ := exists_spaces t
        obtain ⟨r, hr⟩ := List.head?_eq_some_iff.1 (beq_iff_eq.1 hnext)
        rw [ht, hr, unspace_true_spaces hw, unspace_bracket]
        exact fun hroot => by cases hroot
      · exact h

theorem unspace_afterRoot {t : Text}
    (h : unspace true .outside (afterRoot t) = unspace false .outside (afterRoot t)) :
    unspace true .outside t = unspace false .outside t := by
  by_cases hroot : t.head? = some '$'
  · obtain ⟨t, rfl⟩ := List.head?_eq_some_iff.1 hroot
    rw [unspace_root, unspace_root]
    exact congrArg _ h
  · rwa [afterRoot_of_head hroot] at h

theorem path_unspace_iff {bits : Nat} {outer : Bool} {t : Text} {segs : List Segment} :
    Path bits (unspace outer .outside t) segs ↔
      Derives bits true (unspace outer .outside (afterRoot t)) segs := by
  by_cases hroot : t.head? = some '$'
  · obtain ⟨t, rfl⟩ := List.head?_eq_some_iff.1 hroot
    rw [unspace_root]
    constructor
    · intro h
      cases h with
      | root h => exact h
      | relative hne _ => exact absurd rfl hne
    · exact .root
  · rw [afterRoot_of_head hroot]
    constructor
    · intro h
      generalize hu : unspace outer .outside t = u at h
      cases h with
      | root h => exact absurd (by rw [hu]; rfl) (head_unspace_ne_root outer hroot)
      | relative _ h => exact h
    · exact .relative (head_unspace_ne_root outer hroot)

/-- The scanner implements the grammar, after the deletion of the whitespace in brackets. -/
theorem parsePath_eq_ok_iff_path {T : Target} {query : Text} {segs : List Segment} :
    parsePath T query = .ok segs ↔
      Path T.usizeBits (unspace false .outside (Text.trim query)) segs := by
  rw [parsePath_eq_ok, path_unspace_iff]
  exact ⟨Turns.derives, fun h => h.turns rfl⟩

/-- The grammar as it is documented, where whitespace outside brackets is ignored as well, is
implemented exactly for the queries that have no such whitespace, or are refused with or without
it. -/
theorem documented_grammar_iff (T : Target) (query : Text) :
    (∀ segs, parsePath T query = .ok segs ↔
        Path T.usizeBits (unspace true .outside (Text.trim query)) segs) ↔
      unspace true .outside (Text.trim query) = unspace false .outside (Text.trim query) ∨
        ∀ segs, ¬ Path T.usizeBits (unspace true .outside (Text.trim query)) segs := by
  constructor
  · intro himpl
    by_cases hpath : ∃ segs, Path T.usizeBits (unspace true .outside (Text.trim query)) segs
    · left
      obtain ⟨segs, hpath⟩ := hpath
      obtain ⟨segs', hdoc⟩ := (parsePath_eq_ok.1 ((himpl segs).2 hpath)).documented
      -- the scanner returns one list, so that the documented one is the same
      have hok' := (himpl segs').2 (path_unspace_iff.2 hdoc.derives)
      have hsegs : segs' = segs := Except.ok.inj (hok'.symm.trans ((himpl segs).2 hpath))
      exact unspace_afterRoot (hdoc.tight hsegs)
    · exact .inr fun segs h => hpath ⟨segs, h⟩
  · rintro (htight | hnone) segs
    · rw [htight]
      exact parsePath_eq_ok_iff_path
    · refine iff_of_false (fun hok => ?_) (hnone segs)
      obtain ⟨segs', hdoc⟩ := (parsePath_eq_ok.1 hok).documented
      exact hnone segs' (path_unspace_iff.2 hdoc.derives)

theorem isName_of_all (hne : n ≠ []) (h : n.all isNameChar = true) : IsName n :=
  ⟨hne, List.all_eq_true.1 h⟩

/-- `a [0]` is read as the key `a ` with its blank, where the documentation has the key `a`. -/
theorem outer_space_in_name :
    parsePath ⟨32, id, fun c => [c]⟩ "a [0]" = .ok [.key "a ", .index 0] ∧
      Path 32 (unspace true .outside (Text.trim "a [0]")) [.key "a", .index 0] := by
  have htrim : Text.trim "a [0]" = "a [0]" := by decide +kernel
  have hspaced : unspace false .outside "a [0]" = "a " ++ "[0]" := by
    decide +kernel
  have hplain : unspace true .outside "a [0]" = "a" ++ "[0]" := by
    decide +kernel
  have hindex : Derives 32 false "[0]" [.index 0] :=
    have hcontent : Content 32 ['0'] (.index 0) := .index rfl (by decide)
    .bracket hcontent .nil
  rw [parsePath_eq_ok_iff_path, htrim, hspaced, hplain]
  constructor
  · refine .relative (by decide +kernel) (.name (isName_of_all ?_ ?_) hindex)
    · decide +kernel
    · decide +kernel
  · refine .relative (by decide +kernel) (.name (isName_of_all ?_ ?_) hindex)
    · decide +kernel
    · decide +kernel

end Entanglement.JsonQuery
