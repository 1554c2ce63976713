import Entanglement.Lib.Doc
import Entanglement.Lib.Hex
import Mathlib.Data.List.TakeWhile
import Mathlib.Tactic.IntervalCases

/-!
# Compact JSON objects

The text that a JSON writer without whitespace makes of a flat object: its fields in order, whose
values are numbers, strings and arrays of numbers.

* `Object.print_injective`: the text determines the object, since each part of it ends where the
  next delimiter is.
* `Object.len_print_le`: the text of an object of 64-bit numbers, strings and bytes is no longer
  than `Object.size` says.
* `newline_not_mem_printTree`: the text of any JSON value is one line, so that it is a `Writer`'s.
-/

namespace Entanglement.Lib.Json

inductive Value
  | num (n : Nat)
  | str (t : Text)
  | nums (ns : List Nat)

/-- The fields of an object. -/
abbrev Object := List (Text × Value)

/-! ## Printing -/

/-- A character within a string: quotes, backslashes and the control characters below a space are
escaped. -/
def escapeChar (c : Char) : Text :=
  if c = '"' then ['\\', '"']
  else if c = '\\' then ['\\', '\\']
  else if c.toNat = 8 then ['\\', 'b']
  else if c.toNat = 9 then ['\\', 't']
  else if c.toNat = 10 then ['\\', 'n']
  else if c.toNat = 12 then ['\\', 'f']
  else if c.toNat = 13 then ['\\', 'r']
  else if c.toNat < 32 then ['\\', 'u', '0', '0', Hex.digit (c.toNat / 16), Hex.digit (c.toNat % 16)]
  else [c]

def escape (t : Text) : Text := t.flatMap escapeChar

def quote (t : Text) : Text := '"' :: escape t ++ ['"']

/-- The numbers of an array after the first, and its end. -/
def numsTail : List Nat → Text
  | [] => [']']
  | n :: ns => ',' :: decimal n ++ numsTail ns

def Value.print : Value → Text
  | num n => decimal n
  | str t => quote t
  | nums [] => ['[', ']']
  | nums (n :: ns) => '[' :: decimal n ++ numsTail ns

def printField (f : Text × Value) : Text := quote f.1 ++ ':' :: f.2.print

/-- The fields of an object after the first, and its end. -/
def fieldsTail : Object → Text
  | [] => ['\x7d']
  | f :: fs => ',' :: printField f ++ fieldsTail fs

def Object.print : Object → Text
  | [] => ['\x7b', '\x7d']
  | f :: fs => '\x7b' :: printField f ++ fieldsTail fs

/-! ## Reading back one character -/

/-- The value of a hexadecimal digit. -/
def hexVal (c : Char) : Nat := if c.toNat < 58 then c.toNat - 48 else c.toNat - 87

/-- The first character of a string's text; `none` at the closing quote. -/
def readChar : Text → Option (Char × Text)
  | '"' :: _ => none
  | '\\' :: 'u' :: _ :: _ :: a :: b :: r => some (Char.ofNat (16 * hexVal a + hexVal b), r)
  | '\\' :: 'b' :: r => some (Char.ofNat 8, r)
  | '\\' :: 't' :: r => some (Char.ofNat 9, r)
  | '\\' :: 'n' :: r => some (Char.ofNat 10, r)
  | '\\' :: 'f' :: r => some (Char.ofNat 12, r)
  | '\\' :: 'r' :: r => some (Char.ofNat 13, r)
  | '\\' :: c :: r => some (c, r)
  | c :: r => some (c, r)
  | [] => none

theorem readChar_escapeChar (c : Char) (r : Text) : readChar (escapeChar c ++ r) = some (c, r) := by
  by_cases hlow : c.toNat < 32
  · obtain ⟨n, hn, rfl⟩ : ∃ n, n < 32 ∧ c = Char.ofNat n := ⟨c.toNat, hlow, (Char.ofNat_toNat c).symm⟩
    clear hlow
    interval_cases n <;> rfl
  · unfold escapeChar
    split
    · next h => subst h; rfl
    · split
      · next h => subst h; rfl
      · next hq hb =>
        have h8 : c.toNat ≠ 8 := by omega
        have h9 : c.toNat ≠ 9 := by omega
        have h10 : c.toNat ≠ 10 := by omega
        have h12 : c.toNat ≠ 12 := by omega
        have h13 : c.toNat ≠ 13 := by omega
        rw [if_neg h8, if_neg h9, if_neg h10, if_neg h12, if_neg h13, List.cons_append,
          List.nil_append]
        unfold readChar
        split <;> simp_all

/-! ## The text determines the object -/

theorem escape_cons (c : Char) (t : Text) : escape (c :: t) = escapeChar c ++ escape t := by
  simp [escape]

variable {r r' : Text}

/-- Equal texts of two strings, each up to its closing quote. -/
theorem escape_append_inj {s t : Text} (h : escape s ++ '"' :: r = escape t ++ '"' :: r') :
    s = t ∧ r = r' := by
  induction s generalizing t with
  | nil =>
    cases t with
    | nil => exact ⟨rfl, (List.cons.inj h).2⟩
    | cons d t =>
      have hread := congrArg readChar h
      rw [escape_cons, List.append_assoc, readChar_escapeChar] at hread
      cases hread
  | cons c s ih =>
    cases t with
    | nil =>
      have hread := congrArg readChar h
      rw [escape_cons, List.append_assoc, readChar_escapeChar] at hread
      cases hread
    | cons d t =>
      have hread := congrArg readChar h
      simp only [escape_cons, List.append_assoc, readChar_escapeChar, Option.some.injEq,
        Prod.mk.injEq] at hread
      obtain ⟨rfl, hrest⟩ := ih hread.2
      exact ⟨by rw [hread.1], hrest⟩

theorem quote_append_inj {s t : Text} (h : quote s ++ r = quote t ++ r') : s = t ∧ r = r' := by
  have hbody : escape s ++ '"' :: r = escape t ++ '"' :: r' := by simpa [quote] using h
  exact escape_append_inj hbody

/-- The text does not go on with a digit. -/
def NoDigit (r : Text) : Prop := ∀ c r', r = c :: r' → c.isDigit = false

theorem decimal_injective : Function.Injective decimal := by
  intro m n h
  have hm : Nat.ofDigitChars 10 (Nat.toDigits 10 m) 0 = m :=
    Nat.ofDigitChars_toDigits (by decide) (by decide)
  have hn : Nat.ofDigitChars 10 (Nat.toDigits 10 n) 0 = n :=
    Nat.ofDigitChars_toDigits (by decide) (by decide)
  have h' : Nat.toDigits 10 m = Nat.toDigits 10 n := h
  rw [← hm, ← hn, h']

theorem takeWhile_decimal {n : Nat} (hr : NoDigit r) :
    (decimal n ++ r).takeWhile Char.isDigit = decimal n := by
  have hdigits : ∀ c ∈ decimal n, c.isDigit = true := fun c hc =>
    Nat.isDigit_of_mem_toDigits (by decide) (by decide) hc
  rw [List.takeWhile_append_of_pos hdigits]
  cases r with
  | nil => simp
  | cons c r => simp [hr c r rfl]

/-- Equal texts of two numbers, each up to its delimiter. -/
theorem decimal_append_inj {m n : Nat} (hr : NoDigit r) (hr' : NoDigit r')
    (h : decimal m ++ r = decimal n ++ r') : m = n ∧ r = r' := by
  have htake := congrArg (List.takeWhile Char.isDigit) h
  rw [takeWhile_decimal hr, takeWhile_decimal hr'] at htake
  have hmn := decimal_injective htake
  subst hmn
  exact ⟨rfl, List.append_cancel_left h⟩

theorem noDigit_cons {c : Char} (h : c.isDigit = false) : NoDigit (c :: r) := by
  intro c' r' hc
  cases hc
  exact h

theorem noDigit_numsTail (ns : List Nat) (r : Text) : NoDigit (numsTail ns ++ r) := by
  cases ns <;> exact noDigit_cons rfl

theorem numsTail_append_inj {ms ns : List Nat} (h : numsTail ms ++ r = numsTail ns ++ r') :
    ms = ns ∧ r = r' := by
  induction ms generalizing ns with
  | nil =>
    cases ns with
    | nil => exact ⟨rfl, (List.cons.inj h).2⟩
    | cons n ns => exact absurd (List.cons.inj h).1 (by decide)
  | cons m ms ih =>
    cases ns with
    | nil => exact absurd (List.cons.inj h).1 (by decide)
    | cons n ns =>
      have htail := (List.cons.inj h).2
      simp only [List.append_eq, List.append_assoc] at htail
      obtain ⟨rfl, hnums⟩ := decimal_append_inj (noDigit_numsTail ms r) (noDigit_numsTail ns r') htail
      obtain ⟨rfl, hrest⟩ := ih hnums
      exact ⟨rfl, hrest⟩

/-- A digit starts a number, and neither a string nor an array. -/
theorem decimal_ne_cons {n : Nat} {c : Char} (hc : c.isDigit = false) :
    decimal n ++ r ≠ c :: r' := by
  cases hd : decimal n with
  | nil => exact absurd hd Nat.toDigits_ne_nil
  | cons d ds =>
    intro h
    have hmem : d ∈ Nat.toDigits 10 n := by
      change d ∈ decimal n
      rw [hd]
      exact List.mem_cons_self
    have hdigit : d.isDigit = true := Nat.isDigit_of_mem_toDigits (by decide) (by decide) hmem
    rw [(List.cons.inj h).1, hc] at hdigit
    cases hdigit

/-- Equal texts of two values, each up to its delimiter. -/
theorem Value.print_append_inj {v w : Value} (hr : NoDigit r) (hr' : NoDigit r')
    (h : v.print ++ r = w.print ++ r') : v = w ∧ r = r' := by
  cases v with
  | num m =>
    cases w with
    | num n =>
      obtain ⟨rfl, hrest⟩ := decimal_append_inj hr hr' h
      exact ⟨rfl, hrest⟩
    | str t => exact absurd h (decimal_ne_cons rfl)
    | nums ns => cases ns <;> exact absurd h (decimal_ne_cons rfl)
  | str s =>
    cases w with
    | num n => exact absurd h.symm (decimal_ne_cons rfl)
    | str t =>
      obtain ⟨rfl, hrest⟩ := quote_append_inj h
      exact ⟨rfl, hrest⟩
    | nums ns => cases ns <;> exact absurd (List.cons.inj h).1 (by decide)
  | nums ms =>
    cases w with
    | num n => cases ms <;> exact absurd h.symm (decimal_ne_cons rfl)
    | str t => cases ms <;> exact absurd (List.cons.inj h).1 (by decide)
    | nums ns =>
      cases ms with
      | nil =>
        cases ns with
        | nil => exact ⟨rfl, List.append_cancel_left h⟩
        | cons n ns =>
          have htail := (List.cons.inj h).2
          simp only [List.append_eq, List.append_assoc] at htail
          exact absurd htail.symm (decimal_ne_cons rfl)
      | cons m ms =>
        cases ns with
        | nil =>
          have htail := (List.cons.inj h).2
          simp only [List.append_eq, List.append_assoc] at htail
          exact absurd htail (decimal_ne_cons rfl)
        | cons n ns =>
          have htail := (List.cons.inj h).2
          simp only [List.append_eq, List.append_assoc] at htail
          obtain ⟨rfl, hnums⟩ :=
            decimal_append_inj (noDigit_numsTail ms r) (noDigit_numsTail ns r') htail
          obtain ⟨rfl, hrest⟩ := numsTail_append_inj hnums
          exact ⟨rfl, hrest⟩

theorem noDigit_fieldsTail (fs : Object) (r : Text) : NoDigit (fieldsTail fs ++ r) := by
  cases fs <;> exact noDigit_cons rfl

theorem printField_append_inj {f g : Text × Value} (hr : NoDigit r) (hr' : NoDigit r')
    (h : printField f ++ r = printField g ++ r') : f = g ∧ r = r' := by
  obtain ⟨k, v⟩ := f
  obtain ⟨l, w⟩ := g
  have hkey : quote k ++ (':' :: v.print ++ r) = quote l ++ (':' :: w.print ++ r') := by
    simpa [printField] using h
  obtain ⟨rfl, hvalue⟩ := quote_append_inj hkey
  obtain ⟨rfl, hrest⟩ := Value.print_append_inj hr hr' (List.cons.inj hvalue).2
  exact ⟨rfl, hrest⟩

theorem fieldsTail_injective {fs gs : Object} (h : fieldsTail fs = fieldsTail gs) : fs = gs := by
  induction fs generalizing gs with
  | nil =>
    cases gs with
    | nil => rfl
    | cons g gs => exact absurd (List.cons.inj h).1 (by decide)
  | cons f fs ih =>
    cases gs with
    | nil => exact absurd (List.cons.inj h).1 (by decide)
    | cons g gs =>
      have hf := noDigit_fieldsTail fs []
      have hg := noDigit_fieldsTail gs []
      rw [List.append_nil] at hf hg
      obtain ⟨rfl, htail⟩ := printField_append_inj hf hg (List.cons.inj h).2
      rw [ih htail]

/-- **The text determines the object.** -/
theorem Object.print_injective : Function.Injective Object.print := by
  intro fs gs h
  cases fs with
  | nil =>
    cases gs with
    | nil => rfl
    | cons g gs => exact absurd (List.cons.inj (List.cons.inj h).2).1 (by decide)
  | cons f fs =>
    cases gs with
    | nil => exact absurd (List.cons.inj (List.cons.inj h).2).1 (by decide)
    | cons g gs =>
      have hcomma : fieldsTail (f :: fs) = fieldsTail (g :: gs) := by
        simp only [fieldsTail]
        exact congrArg (',' :: ·) (List.cons.inj h).2
      exact fieldsTail_injective hcomma

/-! ## Lengths -/

theorem len_escapeChar_le (c : Char) : Text.len (escapeChar c) ≤ 6 * c.utf8Size := by
  have hpos : 1 ≤ c.utf8Size := Char.utf8Size_pos c
  by_cases hlow : c.toNat < 32
  · have hlen : ∀ n < 32, Text.len (escapeChar (Char.ofNat n)) ≤ 6 := by decide
    have h := hlen c.toNat hlow
    rw [Char.ofNat_toNat] at h
    omega
  · unfold escapeChar
    split
    · next h => subst h; decide
    · split
      · next h => subst h; decide
      · have h8 : c.toNat ≠ 8 := by omega
        have h9 : c.toNat ≠ 9 := by omega
        have h10 : c.toNat ≠ 10 := by omega
        have h12 : c.toNat ≠ 12 := by omega
        have h13 : c.toNat ≠ 13 := by omega
        rw [if_neg h8, if_neg h9, if_neg h10, if_neg h12, if_neg h13]
        simp only [Text.len_cons, Text.len_nil]
        omega

theorem len_escape_le (t : Text) : Text.len (escape t) ≤ 6 * Text.len t := by
  induction t with
  | nil => simp [escape]
  | cons c t ih =>
    have hc := len_escapeChar_le c
    rw [escape_cons, Text.len_append, Text.len_cons]
    omega

theorem len_quote_le (t : Text) : Text.len (quote t) ≤ 6 * Text.len t + 2 := by
  have h := len_escape_le t
  have hq : Text.len ['"'] = 1 := by decide
  simp only [quote, List.cons_append, Text.len_cons, Text.len_append, hq]
  have hq' : ('"' : Char).utf8Size = 1 := by decide
  omega

/-- The digits of a number below `10 ^ k`. -/
theorem len_decimal_le {n k : Nat} (hk : 0 < k) (hn : n < 10 ^ k) : Text.len (decimal n) ≤ k := by
  have hascii : ∀ c ∈ decimal n, c.toNat < 128 := by
    intro c hc
    have hdigit := Text.isDigit_of_mem_decimal hc
    simp only [Char.isDigit, Bool.and_eq_true, decide_eq_true_eq] at hdigit
    exact Nat.lt_of_le_of_lt (UInt32.le_iff_toNat_le.1 hdigit.2) (by decide)
  rw [Text.len_of_ascii hascii]
  exact (Nat.length_toDigits_le_iff (by decide) hk).2 hn

theorem len_numsTail_le {ns : List Nat} (hns : ∀ n ∈ ns, n < 256) :
    Text.len (numsTail ns) ≤ 4 * ns.length + 1 := by
  induction ns with
  | nil => decide
  | cons n ns ih =>
    have hn : Text.len (decimal n) ≤ 3 :=
      len_decimal_le (by decide) (Nat.lt_trans (hns n List.mem_cons_self) (by decide))
    have hrest := ih fun m hm => hns m (List.mem_cons_of_mem _ hm)
    have hcomma : (',' : Char).utf8Size = 1 := by decide
    simp only [numsTail, List.cons_append, Text.len_cons, Text.len_append, List.length_cons, hcomma]
    omega

/-- An array of bytes takes four characters for each of them, and one more. -/
theorem len_print_nums_le {n : Nat} {ns : List Nat} (h : ∀ m ∈ n :: ns, m < 256) :
    Text.len (Value.nums (n :: ns)).print ≤ 4 * (n :: ns).length + 1 := by
  have hn : Text.len (decimal n) ≤ 3 :=
    len_decimal_le (by decide) (Nat.lt_trans (h n List.mem_cons_self) (by decide))
  have hrest := len_numsTail_le fun m hm => h m (List.mem_cons_of_mem _ hm)
  have hopen : ('[' : Char).utf8Size = 1 := by decide
  simp only [Value.print, List.cons_append, Text.len_cons, Text.len_append, List.length_cons, hopen]
  omega

/-- Numbers of at most twenty digits, and arrays of bytes. -/
def Value.Small : Value → Prop
  | num n => n < 10 ^ 20
  | str _ => True
  | nums ns => ∀ n ∈ ns, n < 256

/-- An upper bound for the text of a small value: twenty digits, six characters for one of a string,
three digits and a comma for a byte. -/
def Value.size : Value → Nat
  | num _ => 20
  | str t => 6 * Text.len t + 2
  | nums ns => 4 * ns.length + 2

@[simp] theorem Value.size_num (n : Nat) : (num n).size = 20 := rfl

@[simp] theorem Value.size_str (t : Text) : (str t).size = 6 * Text.len t + 2 := rfl

theorem Value.len_print_le {v : Value} (h : v.Small) : Text.len v.print ≤ v.size := by
  match v, h with
  | num n, h => exact len_decimal_le (k := 20) (by decide) h
  | str t, _ => exact len_quote_le t
  | nums [], _ => decide
  | nums (n :: ns), h => exact Nat.le_succ_of_le (len_print_nums_le h)

/-- An upper bound for the text of an object of small values. -/
def Object.size (fs : Object) : Nat := 2 + (fs.map fun f => 6 * Text.len f.1 + 4 + f.2.size).sum

theorem Object.size_nil : Object.size [] = 2 := rfl

theorem Object.size_cons (k : Text) (v : Value) (fs : Object) :
    Object.size ((k, v) :: fs) = 6 * Text.len k + 4 + v.size + Object.size fs := by
  simp only [Object.size, List.map_cons, List.sum_cons]
  omega

theorem len_printField_le {f : Text × Value} (h : f.2.Small) :
    Text.len (printField f) ≤ 6 * Text.len f.1 + 3 + f.2.size := by
  have hk := len_quote_le f.1
  have hv := Value.len_print_le h
  have hcolon : (':' : Char).utf8Size = 1 := by decide
  simp only [printField, Text.len_cons, Text.len_append, hcolon]
  omega

theorem len_fieldsTail_le {fs : Object} (h : ∀ f ∈ fs, f.2.Small) :
    Text.len (fieldsTail fs) + 1 ≤ Object.size fs := by
  induction fs with
  | nil => decide
  | cons f fs ih =>
    have hf := len_printField_le (h f List.mem_cons_self)
    have hrest := ih fun g hg => h g (List.mem_cons_of_mem _ hg)
    have hcomma : (',' : Char).utf8Size = 1 := by decide
    simp only [fieldsTail, Object.size, List.cons_append, Text.len_cons, Text.len_append, hcomma,
      List.map_cons, List.sum_cons] at hrest ⊢
    omega

/-- **A bound on the text of an object.** -/
theorem Object.len_print_le {fs : Object} (h : ∀ f ∈ fs, f.2.Small) :
    Text.len (Object.print fs) ≤ Object.size fs := by
  cases fs with
  | nil => decide
  | cons f fs =>
    have hf := len_printField_le (h f List.mem_cons_self)
    have hrest := len_fieldsTail_le fun g hg => h g (List.mem_cons_of_mem _ hg)
    have hopen : ('\x7b' : Char).utf8Size = 1 := by decide
    simp only [Object.print, Object.size, List.cons_append, Text.len_cons, Text.len_append, hopen,
      List.map_cons, List.sum_cons] at hrest ⊢
    omega

/-! ## Trees -/

/-- How a writer prints floating-point numbers, which it does on one line. -/
structure FloatPrinter where
  print : UInt64 → Text
  one_line : ∀ bits, '\n' ∉ print bits

section Trees

variable (floats : FloatPrinter)

mutual

/-- The text of a JSON value, without whitespace. -/
def printTree : JsonValue → Text
  | .scalar .null => "null"
  | .scalar (.boolean b) => if b then "true" else "false"
  | .scalar (.integer n) => signed n
  | .scalar (.float bits) => floats.print bits
  | .string t => quote t
  | .array [] => ['[', ']']
  | .array (item :: items) => '[' :: (printTree item ++ itemsTail items)
  | .table [] => ['\x7b', '\x7d']
  | .table ((key, value) :: entries) =>
    '\x7b' :: (quote key ++ ':' :: (printTree value ++ entriesTail entries))

def itemsTail : List JsonValue → Text
  | [] => [']']
  | item :: items => ',' :: (printTree item ++ itemsTail items)

def entriesTail : List (Text × JsonValue) → Text
  | [] => ['\x7d']
  | (key, value) :: entries => ',' :: (quote key ++ ':' :: (printTree value ++ entriesTail entries))

end

theorem newline_not_mem_escapeChar (c : Char) : '\n' ∉ escapeChar c := by
  by_cases hlow : c.toNat < 32
  · have hall : ∀ n : Fin 32, '\n' ∉ escapeChar (Char.ofNat n) := by decide
    have h := hall ⟨c.toNat, hlow⟩
    rwa [Char.ofNat_toNat] at h
  · have hc : c ≠ '\n' := by
      rintro rfl
      exact hlow (by decide)
    unfold escapeChar
    split_ifs
    all_goals simp_all [Ne.symm hc]

theorem newline_not_mem_quote (t : Text) : '\n' ∉ quote t := by
  have hescape : '\n' ∉ escape t := by
    intro h
    obtain ⟨c, -, hc⟩ := List.mem_flatMap.1 h
    exact newline_not_mem_escapeChar c hc
  simp [quote, hescape]

theorem newline_not_mem_signed (n : Int) : '\n' ∉ signed n := by
  intro h
  rcases Text.mem_signed h with h | h
  · cases h
  · exact absurd h (by decide)

mutual

/-- **The text of a JSON value is one line.** -/
theorem newline_not_mem_printTree : (v : JsonValue) → '\n' ∉ printTree floats v
  | .scalar .null => by simp [printTree]
  | .scalar (.boolean true) => by simp [printTree]
  | .scalar (.boolean false) => by simp [printTree]
  | .scalar (.integer n) => newline_not_mem_signed n
  | .scalar (.float bits) => floats.one_line bits
  | .string t => newline_not_mem_quote t
  | .array [] => by simp [printTree]
  | .array (item :: items) => by
    have hitem := newline_not_mem_printTree item
    have hitems := newline_not_mem_itemsTail items
    simp [printTree, hitem, hitems]
  | .table [] => by simp [printTree]
  | .table ((key, value) :: entries) => by
    have hkey := newline_not_mem_quote key
    have hvalue := newline_not_mem_printTree value
    have hentries := newline_not_mem_entriesTail entries
    simp [printTree, hkey, hvalue, hentries]

theorem newline_not_mem_itemsTail : (items : List JsonValue) → '\n' ∉ itemsTail floats items
  | [] => by simp [itemsTail]
  | item :: items => by
    have hitem := newline_not_mem_printTree item
    have hitems := newline_not_mem_itemsTail items
    simp [itemsTail, hitem, hitems]

theorem newline_not_mem_entriesTail :
    (entries : List (Text × JsonValue)) → '\n' ∉ entriesTail floats entries
  | [] => by simp [entriesTail]
  | (key, value) :: entries => by
    have hkey := newline_not_mem_quote key
    have hvalue := newline_not_mem_printTree value
    have hentries := newline_not_mem_entriesTail entries
    simp [entriesTail, hkey, hvalue, hentries]

end

/-- A writer of JSON values that puts each on one line. -/
structure Writer where
  print : JsonValue → Text
  one_line : ∀ v, '\n' ∉ print v

/-- A writer without whitespace is one. -/
def Writer.compact : Writer := ⟨printTree floats, newline_not_mem_printTree floats⟩

end Trees

end Entanglement.Lib.Json
