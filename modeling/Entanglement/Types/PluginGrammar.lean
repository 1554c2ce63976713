import Entanglement.Types.Ids

/-!
# The grammar of plugin ids (`entangle-types`, `plugin_id.rs`)

`PluginId::from_str` accepts the texts `p/n@v` with a publisher of 32 hexadecimal digits, a name of
the documented form and a version (`IsPluginText`), and no others (`parse_eq_ok_iff`). The parser
takes the first `/` and the last `@`. These are the separators that the printer wrote, since no
publisher holds a `/` and no version an `@`. The publisher is printed in lower case; the rest of an
accepted text is printed as it was.
-/

namespace Entanglement

open Lib

variable {id : PluginId}

namespace PluginId

/-! ## The parts -/

/-- 32 hexadecimal digits, in either case. -/
def IsPublisher (p : Text) : Prop := p.length = 32 ∧ ∀ c ∈ p, Text.isAsciiHexdigit c = true

/-- `^[a-z][a-z0-9-]{0,62}$`. -/
def IsName (n : Text) : Prop :=
  ∃ first rest, n = first :: rest ∧ ('a' ≤ first ∧ first ≤ 'z') ∧ rest.length ≤ 62 ∧
    ∀ c ∈ rest, ('a' ≤ c ∧ c ≤ 'z') ∨ ('0' ≤ c ∧ c ≤ '9') ∨ c = '-'

theorem toNat_le {a b : Char} (h : a ≤ b) : a.toNat ≤ b.toNat := UInt32.le_iff_toNat_le.1 h

theorem ascii_of_isAsciiHexdigit {c : Char} (h : Text.isAsciiHexdigit c = true) : c.toNat < 128 := by
  simp only [Text.isAsciiHexdigit, Bool.or_eq_true, Bool.and_eq_true, decide_eq_true_eq] at h
  rcases h with (⟨-, h⟩ | ⟨-, h⟩) | ⟨-, h⟩
  all_goals exact Nat.lt_of_le_of_lt (toNat_le h) (by decide)

/-- Case does not matter for a digit. -/
theorem isAsciiHexdigit_toLower (c : Char) :
    Text.isAsciiHexdigit c.toLower = Text.isAsciiHexdigit c := by
  by_cases hc : c.toNat < 128
  · have hall : ∀ n : Fin 128, Text.isAsciiHexdigit (Char.ofNat n).toLower =
        Text.isAsciiHexdigit (Char.ofNat n) := by decide
    have h := hall ⟨c.toNat, hc⟩
    simpa only [Char.ofNat_toNat] using h
  · have hsame : c.toLower = c := by
      unfold Char.toLower
      rw [dif_neg]
      rintro ⟨-, hle⟩
      exact hc (Nat.lt_of_le_of_lt (UInt32.le_iff_toNat_le.1 hle) (by decide))
    rw [hsame]

theorem isPublisher_iff {p : Text} :
    IsPublisher p ↔
      ¬ (Text.len (p.map Char.toLower) ≠ 32 ∨ !(p.map Char.toLower).all Text.isAsciiHexdigit) := by
  have hall : (p.map Char.toLower).all Text.isAsciiHexdigit = p.all Text.isAsciiHexdigit := by
    rw [List.all_map]
    exact congrArg p.all (funext isAsciiHexdigit_toLower)
  have hlen (h : ∀ c ∈ p, Text.isAsciiHexdigit c = true) :
      Text.len (p.map Char.toLower) = p.length := by
    rw [Text.len_of_ascii, List.length_map]
    intro c hc
    obtain ⟨d, hd, rfl⟩ := List.mem_map.1 hc
    exact ascii_of_isAsciiHexdigit ((isAsciiHexdigit_toLower d).trans (h d hd))
  rw [not_or, not_not, Bool.not_eq_true', Bool.not_eq_false, hall, List.all_eq_true]
  constructor
  · rintro ⟨hlength, hhex⟩
    exact ⟨(hlen hhex).trans hlength, hhex⟩
  · rintro ⟨hlength, hhex⟩
    exact ⟨(hlen hhex).symm.trans hlength, hhex⟩

theorem isLower_iff {c : Char} : c.isLower = true ↔ 'a' ≤ c ∧ c ≤ 'z' := by
  have hdef : c.isLower = (decide (c ≥ 'a') && decide (c ≤ 'z')) := rfl
  rw [hdef, Bool.and_eq_true, decide_eq_true_eq, decide_eq_true_eq]

theorem isDigit_iff {c : Char} : c.isDigit = true ↔ '0' ≤ c ∧ c ≤ '9' := by
  rw [Char.isDigit, Bool.and_eq_true, decide_eq_true_eq, decide_eq_true_eq]
  exact Iff.rfl

theorem isName_iff {n : Text} : IsName n ↔ isValidName n = true := by
  cases n with
  | nil => exact ⟨fun ⟨_, _, h, _⟩ => (nomatch h), fun h => nomatch h⟩
  | cons first rest =>
    have hcons : IsName (first :: rest) ↔ ('a' ≤ first ∧ first ≤ 'z') ∧ rest.length ≤ 62 ∧
        ∀ c ∈ rest, ('a' ≤ c ∧ c ≤ 'z') ∨ ('0' ≤ c ∧ c ≤ '9') ∨ c = '-' := by
      constructor
      · rintro ⟨_, _, h, hname⟩
        cases h
        exact hname
      · exact fun hname => ⟨first, rest, rfl, hname⟩
    have hascii (hfirst : 'a' ≤ first ∧ first ≤ 'z')
        (hrest : ∀ c ∈ rest, ('a' ≤ c ∧ c ≤ 'z') ∨ ('0' ≤ c ∧ c ≤ '9') ∨ c = '-') :
        Text.len (first :: rest) = rest.length + 1 := by
      apply Text.len_of_ascii
      intro c hc
      rcases List.mem_cons.1 hc with rfl | hc
      · exact Nat.lt_of_le_of_lt (toNat_le hfirst.2) (by decide)
      · rcases hrest c hc with h | h | rfl
        · exact Nat.lt_of_le_of_lt (toNat_le h.2) (by decide)
        · exact Nat.lt_of_le_of_lt (toNat_le h.2) (by decide)
        · decide
    simp only [hcons, isValidName, Bool.and_eq_true, decide_eq_true_eq, List.all_eq_true,
      Bool.or_eq_true, isLower_iff, isDigit_iff, beq_iff_eq, or_assoc]
    constructor
    · rintro ⟨hfirst, hlen, hrest⟩
      exact ⟨⟨by rw [hascii hfirst hrest]; omega, hfirst⟩, hrest⟩
    · rintro ⟨⟨hlen, hfirst⟩, hrest⟩
      rw [hascii hfirst hrest] at hlen
      exact ⟨hfirst, by omega, hrest⟩

theorem new_eq_ok_iff {p n : Text} {v : Version} :
    new p n v = .ok id ↔ IsPublisher p ∧ IsName n ∧ id = ⟨Text.toLower p, n, v⟩ := by
  rw [isPublisher_iff, isName_iff]
  unfold new
  dsimp only
  split
  · rename_i hpub
    exact ⟨fun h => (nomatch h), fun h => absurd hpub h.1⟩
  · rename_i hpub
    split
    · rename_i hname
      exact ⟨fun h => (nomatch h), fun h => by simp [h.2.1] at hname⟩
    · rename_i hname
      rw [Bool.not_eq_true', Bool.not_eq_false] at hname
      constructor
      · intro h
        cases h
        exact ⟨hpub, hname, rfl⟩
      · rintro ⟨-, -, rfl⟩
        rfl

/-! ## Accepted texts -/

/-- `p/n@v` is the text of a plugin id. -/
def IsPluginText (semver : SemverParse) (p n v : Text) : Prop :=
  IsPublisher p ∧ IsName n ∧ ∃ version, semver v = some version

/-- The three parts with their separators. -/
def joined (p n v : Text) : Text := p ++ '/' :: (n ++ '@' :: v)

theorem print_eq_joined (id : PluginId) : id.print = joined id.publisher id.name id.version.print := by
  rw [print, joined, List.append_assoc]
  rfl

end PluginId

/-- What is assumed of `semver`: a version prints as the text it was parsed from, and there is no
separator of a plugin id in that text. -/
structure LawfulSemver (semver : SemverParse) : Prop where
  print_eq : ∀ {t v}, semver t = some v → v.print = t
  no_separator : ∀ {t v}, semver t = some v → '/' ∉ t ∧ '@' ∉ t

namespace PluginId

section Lawful

variable {semver : SemverParse} (hsemver : LawfulSemver semver)

include hsemver

/-- **The grammar**: what the parser accepts, and what it makes of it. -/
theorem parse_eq_ok_iff {s : Text} :
    parse semver s = .ok id ↔
      ∃ p n v version, s = joined p n v ∧ IsPublisher p ∧ IsName n ∧ semver v = some version ∧
        id = ⟨Text.toLower p, n, version⟩ := by
  constructor
  · intro h
    unfold parse at h
    split at h
    · cases h
    · rename_i p rest hslash
      split at h
      · cases h
      · rename_i n v hat
        split at h
        · cases h
        · rename_i version hversion
          obtain ⟨-, rfl⟩ := Text.splitFirst_eq_some.1 hslash
          obtain ⟨-, rfl⟩ := Text.splitLast_eq_some.1 hat
          obtain ⟨hp, hn, hid⟩ := new_eq_ok_iff.1 h
          exact ⟨p, n, v, version, rfl, hp, hn, hversion, hid⟩
  · rintro ⟨p, n, v, version, rfl, hp, hn, hversion, hid⟩
    have hslash : '/' ∉ p := fun hmem => absurd (hp.2 _ hmem) (by decide)
    obtain ⟨-, hat⟩ := hsemver.no_separator hversion
    unfold parse joined
    rw [Text.splitFirst_append hslash]
    dsimp only
    rw [Text.splitLast_append n hat]
    dsimp only
    rw [hversion]
    exact new_eq_ok_iff.2 ⟨hp, hn, hid⟩

theorem isPluginText_of_parse {s : Text} (h : parse semver s = .ok id) :
    ∃ p n v, s = joined p n v ∧ IsPluginText semver p n v := by
  obtain ⟨p, n, v, version, hs, hp, hn, hversion, -⟩ := (parse_eq_ok_iff hsemver).1 h
  exact ⟨p, n, v, hs, hp, hn, version, hversion⟩

theorem parse_joined {p n v : Text} (h : IsPluginText semver p n v) :
    ∃ id, parse semver (joined p n v) = .ok id ∧ id.print = joined (Text.toLower p) n v := by
  obtain ⟨hp, hn, version, hversion⟩ := h
  refine ⟨_, (parse_eq_ok_iff hsemver).2 ⟨p, n, v, version, rfl, hp, hn, hversion, rfl⟩, ?_⟩
  rw [print_eq_joined, hsemver.print_eq hversion]

end Lawful

/-! ## Ids that the program can hold -/

/-- The ids that come from `new`, with a version that reads back from its own text as every
`semver::Version` does, or from `from_str`. -/
def Made (semver : SemverParse) (id : PluginId) : Prop :=
  (∃ p n v, semver v.print = some v ∧ new p n v = .ok id) ∨ ∃ s, parse semver s = .ok id

theorem toLower_toLower (t : Text) : Text.toLower (Text.toLower t) = Text.toLower t := by
  rw [Text.toLower, Text.toLower, List.map_map]
  exact List.map_congr_left fun c _ => Text.toLower_toLower c

theorem IsPublisher.toLower {p : Text} (h : IsPublisher p) : IsPublisher (Text.toLower p) := by
  refine ⟨(List.length_map _).trans h.1, fun c hc => ?_⟩
  obtain ⟨d, hd, rfl⟩ := List.mem_map.1 hc
  rw [isAsciiHexdigit_toLower]
  exact h.2 d hd

/-- An id that was made has lower-case digits, a name, and a version that reads back. -/
theorem Made.parts {semver : SemverParse} (hsemver : LawfulSemver semver) (h : Made semver id) :
    IsPublisher id.publisher ∧ Text.toLower id.publisher = id.publisher ∧ IsName id.name ∧
      semver id.version.print = some id.version := by
  rcases h with ⟨p, n, v, hv, hnew⟩ | ⟨s, hparse⟩
  · obtain ⟨hp, hn, rfl⟩ := new_eq_ok_iff.1 hnew
    exact ⟨hp.toLower, toLower_toLower p, hn, hv⟩
  · obtain ⟨p, n, v, version, -, hp, hn, hversion, rfl⟩ := (parse_eq_ok_iff hsemver).1 hparse
    refine ⟨hp.toLower, toLower_toLower p, hn, ?_⟩
    rw [hsemver.print_eq hversion]
    exact hversion

theorem Made.parse_print {semver : SemverParse} (hsemver : LawfulSemver semver) {id : PluginId}
    (h : Made semver id) : parse semver id.print = .ok id := by
  obtain ⟨-, -, -, hversion⟩ := h.parts hsemver
  have hnew : ∃ p n v, new p n v = .ok id := by
    rcases h with ⟨p, n, v, -, hnew⟩ | ⟨s, hparse⟩
    · exact ⟨p, n, v, hnew⟩
    · exact exists_new_of_parse hparse
  exact PluginId.parse_print hnew (hsemver.no_separator hversion).2 hversion

/-- **Plugin ids and their texts**: the accepted texts are those of the grammar, each printed with
its publisher in lower case; an id that was made is read back from its text, so ids that print alike
are equal. -/
theorem plugin_id_grammar (semver : SemverParse) (hsemver : LawfulSemver semver) :
    (∀ s, (∃ id, parse semver s = .ok id) ↔
      ∃ p n v, s = joined p n v ∧ IsPluginText semver p n v) ∧
    (∀ p n v id, IsPluginText semver p n v → parse semver (joined p n v) = .ok id →
      id.print = joined (Text.toLower p) n v) ∧
    (∀ id, Made semver id → parse semver id.print = .ok id) ∧
    (∀ id id', Made semver id → Made semver id' → id.print = id'.print → id = id') := by
  refine ⟨fun s => ⟨?_, ?_⟩, ?_, fun id h => h.parse_print hsemver, ?_⟩
  · rintro ⟨id, h⟩
    exact isPluginText_of_parse hsemver h
  · rintro ⟨p, n, v, rfl, h⟩
    obtain ⟨id, hid, -⟩ := parse_joined hsemver h
    exact ⟨id, hid⟩
  · intro p n v id htext hparse
    obtain ⟨id', hid', hprint⟩ := parse_joined hsemver htext
    rw [hparse] at hid'
    cases hid'
    exact hprint
  · intro id id' h h' hprint
    have hid := h.parse_print hsemver
    rw [hprint, h'.parse_print hsemver] at hid
    cases hid
    rfl

theorem sampleSemver_lawful : LawfulSemver sampleSemver where
  print_eq := by
    intro t v h
    obtain ⟨rfl, h⟩ := Option.ite_none_right_eq_some.1 h
    cases h
    rfl
  no_separator := by
    intro t v h
    obtain ⟨rfl, -⟩ := Option.ite_none_right_eq_some.1 h
    decide

theorem sample_made : Made sampleSemver sample := .inr ⟨sample.print, rfl⟩

theorem plugin_id_grammar_sample : parse sampleSemver sample.print = .ok sample :=
  (plugin_id_grammar sampleSemver sampleSemver_lawful).2.2.1 sample sample_made

end PluginId

end Entanglement
