import Entanglement.Agent.Session
import Entanglement.Lib.DocEdit

/-!
# What a rewrite changes

A rewritten configuration is the original one with the entry of the server set, and nothing else
changed. Claude Code and Codex refuse a document in which something else stands in the place of a
table. OpenCode indexes into it instead: a null that stands there is overwritten, and anything else
panics. `rewrite_iff` says when a rewrite keeps to its entry.
-/

namespace Entanglement.Agent

open Lib Doc

/-! ## One entry -/

section OneEntry
variable {σ : Type} {format : Doc.Format σ} {utf8Error : Bytes → Text} {blank : Doc σ}
  {splice : Doc σ → Except AdapterError (Doc σ)} {path : List Text} {entry : Doc σ}
  {original : Bytes}

/-- The document that is patched: the original, or the skeleton when there is none. -/
def baseDoc (format : Doc.Format σ) (utf8Error : Bytes → Text) (blank : Doc σ) (original : Bytes) :
    Except AdapterError (Doc σ) :=
  if original = [] then .ok blank else readDoc format utf8Error original

/-- The outcome of a rewrite is an error, or the text of the document with the entry set. -/
def OneEntry (format : Doc.Format σ) (path : List Text) (entry : Doc σ)
    (base : Except AdapterError (Doc σ)) : Except AdapterError Text → Prop
  | .error e => e ≠ .panicked
  | .ok text => ∃ doc doc', base = .ok doc ∧ format.parse text = .ok doc' ∧
      SetsEntry path entry doc doc'

/-- A splice sets the entry, and refuses when something else than a table stands on the way. -/
def Spliced (path : List Text) (entry doc : Doc σ) : Except AdapterError (Doc σ) → Prop
  | .error e => e ≠ .panicked ∧ setIn entry path doc = none
  | .ok doc' => setIn entry path doc = some doc'

/-- The document that is printed in the end. -/
def edited (format : Doc.Format σ) (utf8Error : Bytes → Text) (blank : Doc σ)
    (splice : Doc σ → Except AdapterError (Doc σ)) (original : Bytes) : Except AdapterError (Doc σ) :=
  (baseDoc format utf8Error blank original).bind splice

theorem patch_eq (format : Doc.Format σ) (utf8Error : Bytes → Text) (blank : Doc σ)
    (splice : Doc σ → Except AdapterError (Doc σ)) (original : Bytes) :
    patch format utf8Error blank splice original =
      (edited format utf8Error blank splice original).bind fun doc =>
        (format.print doc).mapError .parse := by
  unfold patch edited baseDoc
  split_ifs
  · rfl
  · cases readDoc format utf8Error original <;> rfl

theorem baseDoc_ne_panicked : baseDoc format utf8Error blank original ≠ .error .panicked := by
  unfold baseDoc readDoc
  split_ifs
  · nofun
  · cases Text.fromUtf8 original with
    | none => nofun
    | some text => cases hparse : format.parse text <;> simp [hparse, Except.mapError]

/-- A splice that refuses or sets the entry makes a rewrite that does, if what is printed is read back. -/
theorem oneEntry_patch
    (hspliced : ∀ doc, baseDoc format utf8Error blank original = .ok doc →
      Spliced path entry doc (splice doc))
    (hback : ∀ doc doc' text, baseDoc format utf8Error blank original = .ok doc →
      setIn entry path doc = some doc' → edited format utf8Error blank splice original = .ok doc' →
      format.print doc' = .ok text → format.parse text = .ok doc') :
    OneEntry format path entry (baseDoc format utf8Error blank original)
      (patch format utf8Error blank splice original) := by
  rw [patch_eq]
  unfold edited at hback ⊢
  cases hbase : baseDoc format utf8Error blank original with
  | error e =>
    rintro rfl
    exact baseDoc_ne_panicked hbase
  | ok doc =>
    have hdoc := hspliced doc hbase
    rw [hbase] at hback
    simp only [Except.bind] at hback ⊢
    cases hsplice : splice doc with
    | error e =>
      rw [hsplice] at hdoc
      exact hdoc.1
    | ok doc' =>
      rw [hsplice] at hdoc
      simp only
      cases hprint : format.print doc' with
      | error message => nofun
      | ok text =>
        exact ⟨doc, doc', rfl, hback doc doc' text rfl hdoc hsplice hprint, setsEntry_of_setIn hdoc⟩

/-- When a rewrite keeps to its entry, for a splice that sets it where the document is `good`, and
panics or overwrites something where it is not. -/
theorem oneEntry_iff {reread : σ → σ} (good : Doc σ → Prop)
    (hordered : ∀ text doc, format.parse text = .ok doc → doc.ordered)
    (hreread : ∀ doc, edited format utf8Error blank splice original = .ok doc →
      format.Rereads reread doc)
    (hentry : entry.mapScalars reread = entry)
    (hblank : blank.ordered ∧ blank.mapScalars reread = blank ∧ good blank)
    (hspliced : ∀ doc, good doc → Spliced path entry doc (splice doc))
    (hbad : ∀ doc, ¬ good doc → ¬ OnTables path doc ∧
      (splice doc = .error .panicked ∨ ∃ doc', splice doc = .ok doc')) :
    OneEntry format path entry (baseDoc format utf8Error blank original)
        (patch format utf8Error blank splice original) ↔
      ∀ doc, original ≠ [] → readDoc format utf8Error original = .ok doc →
        good doc ∧ (OnTables path doc → Survives reread path doc) := by
  constructor
  · intro hone doc horiginal hread
    have hbase : baseDoc format utf8Error blank original = .ok doc := (if_neg horiginal).trans hread
    have hedited : edited format utf8Error blank splice original = splice doc := by
      rw [edited, hbase]
      rfl
    rw [patch_eq, hedited, hbase] at hone
    rw [hedited] at hreread
    -- what is printed of an edited document has the entry set
    have hsets : ∀ doc', splice doc = .ok doc' →
        SetsEntry path entry doc (doc'.mapScalars reread) := by
      intro doc' hsplice
      have hdoc' := hreread doc' hsplice
      obtain ⟨text, hprint⟩ := hdoc'.prints
      simp only [Except.bind, hsplice, hprint, Except.mapError] at hone
      obtain ⟨_, read, heq, hparse, hsets⟩ := hone
      cases heq
      rwa [hdoc'.reads text read hprint hparse] at hsets
    have hgood : good doc := by
      by_contra hnot
      obtain ⟨hway, hpanic | ⟨doc', hsplice⟩⟩ := hbad doc hnot
      · rw [hpanic] at hone
        exact hone rfl
      · exact hway (hsets doc' hsplice).tables
    refine ⟨hgood, fun htables => ?_⟩
    obtain ⟨doc', hset⟩ := exists_setIn entry htables
    have hdoc := hspliced doc hgood
    cases hsplice : splice doc with
    | error e =>
      rw [hsplice] at hdoc
      exact absurd (hset.symm.trans hdoc.2) nofun
    | ok doc'' =>
      rw [hsplice] at hdoc
      cases hset.symm.trans hdoc
      exact (setsEntry_of_setIn hset).survives (hsets doc' hsplice)
  · intro h
    have hcases : ∀ doc, baseDoc format utf8Error blank original = .ok doc →
        doc.ordered ∧ good doc ∧ (OnTables path doc → Survives reread path doc) := by
      intro doc hbase
      unfold baseDoc at hbase
      split_ifs at hbase with horiginal
      · cases hbase
        exact ⟨hblank.1, hblank.2.2, fun _ => survives_of_mapScalars hblank.2.1 path⟩
      · refine ⟨?_, h doc horiginal hbase⟩
        unfold readDoc at hbase
        split at hbase
        · cases hbase
        · exact hordered _ _ (except_mapError_eq_ok.1 hbase)
    refine oneEntry_patch (fun doc hbase => hspliced doc (hcases doc hbase).2.1) ?_
    intro doc doc' text hbase hset hedited hprint
    obtain ⟨hdoc, -, hsurvives⟩ := hcases doc hbase
    refine (hreread doc' hedited).accepts text hprint ?_
    exact mapScalars_setIn hset hdoc hentry (hsurvives (setsEntry_of_setIn hset).tables)

theorem spliced_spliceUnder (key notRoot notTable serverName : Text) (entry doc : Doc σ) :
    Spliced [key, serverName] entry doc (spliceUnder key notRoot notTable serverName entry doc) := by
  unfold spliceUnder
  cases doc with
  | table entries =>
    simp only
    cases hservers : (entries.lookup key).getD (.table []) with
    | table servers => simp [Spliced, setIn, hservers]
    | _ => simp [Spliced, setIn, hservers]
  | _ => simp [Spliced, setIn]

end OneEntry

/-! ## OpenCode -/

/-- The root is a table, and so is what stands in it under `mcp`, if anything does. -/
def McpTable (doc : JsonValue) : Prop :=
  ∃ entries, doc = .table entries ∧
    ∀ mcp, entries.lookup "mcp".toList = some mcp → ∃ fields, mcp = .table fields

theorem index_table {entries : List (Text × JsonValue)} {key : Text} {v : JsonValue}
    (h : entries.lookup key = some v) : index (.table entries) key = v := by
  rw [index, get_table, h, Option.getD_some]

/-- Where tables stand on the way, `mcp.servers` is there in the end and nothing else has changed. -/
theorem ensureServers_table {entries fields : List (Text × JsonValue)}
    (hfields : (entries.lookup "mcp".toList).getD (.table []) = .table fields) :
    ∃ entries' fields', ensureServers (.table entries) = .ok (.table entries') ∧
      entries'.lookup "mcp".toList = some (.table fields') ∧
      fields'.lookup "servers".toList =
        some ((fields.lookup "servers".toList).getD (.table [])) ∧
      (∀ v, insertEntry "mcp" v entries' = insertEntry "mcp" v entries) ∧
      ∀ v, insertEntry "servers" v fields' = insertEntry "servers" v fields := by
  unfold ensureServers
  generalize "mcp".toList = mcp at *
  generalize "servers".toList = servers
  cases hmcp : entries.lookup mcp with
  | none =>
    rw [hmcp] at hfields
    cases hfields
    have hput : (insertEntry mcp (.table [(servers, .table [])]) entries).lookup mcp =
        some (.table [(servers, .table [])]) := by rw [lookup_insertEntry, if_pos rfl]
    have hservers : [(servers, (.table [] : JsonValue))].lookup servers = some (.table []) :=
      List.lookup_cons_self
    refine ⟨_, _, ?_, hput, hservers, fun v => insertEntry_insertEntry mcp v _ entries,
      fun v => insertEntry_insertEntry servers v (.table []) []⟩
    simp only [get_table, hmcp, Option.isNone_none, if_true, assign, bind, Except.bind,
      index_table hput, hservers, Option.isNone_some, Bool.false_eq_true, if_false]
  | some v =>
    rw [hmcp] at hfields
    obtain rfl : v = .table fields := hfields
    simp only [get_table, hmcp, Option.isNone_some, Bool.false_eq_true, if_false, bind, Except.bind,
      index_table hmcp]
    cases hservers : fields.lookup servers with
    | none =>
      have hput : (insertEntry mcp (.table (insertEntry servers (.table []) fields)) entries).lookup
          mcp = some (.table (insertEntry servers (.table []) fields)) := by
        rw [lookup_insertEntry, if_pos rfl]
      refine ⟨_, _, rfl, hput, ?_, fun v => insertEntry_insertEntry mcp v _ entries,
        fun v => insertEntry_insertEntry servers v _ fields⟩
      rw [lookup_insertEntry, if_pos rfl]
      rfl
    | some v => exact ⟨entries, fields, rfl, hmcp, hservers, fun _ => rfl, fun _ => rfl⟩

theorem spliced_spliceOpenCode {doc : JsonValue} (h : McpTable doc) (serverName : Text)
    (entry : JsonValue) :
    Spliced ["mcp", "servers", serverName] entry doc
      (spliceOpenCode serverName entry doc) := by
  obtain ⟨entries, rfl, hmcp⟩ := h
  obtain ⟨fields, hfields⟩ : ∃ fields, (entries.lookup "mcp".toList).getD (.table []) =
      .table fields := by
    cases hlook : entries.lookup "mcp".toList with
    | none => exact ⟨[], rfl⟩
    | some mcp => exact hmcp mcp hlook
  obtain ⟨entries', fields', hensure, hmcp', hservers', hover, hover'⟩ := ensureServers_table hfields
  simp only [spliceOpenCode, hensure, bind, Except.bind, index_table hmcp', index_table hservers']
  have hparse : ∀ message, AdapterError.parse message ≠ .panicked := fun _ => nofun
  cases hservers : (fields.lookup "servers".toList).getD (.table []) with
  | table servers => simp only [assign, Spliced, setIn, hover, hover', hfields, hservers, Option.map_some]
  | _ => exact ⟨hparse _, by simp only [setIn, hfields, hservers, Option.map_none]⟩

/-- Where something else stands on the way, it is overwritten or the splice panics. -/
theorem spliceOpenCode_of_not_mcpTable {doc : JsonValue} (h : ¬ McpTable doc) (serverName : Text)
    (entry : JsonValue) :
    spliceOpenCode serverName entry doc = .error .panicked ∨
      ∃ doc', spliceOpenCode serverName entry doc = .ok doc' := by
  cases doc with
  | string t => exact .inl rfl
  | array items => exact .inl rfl
  | scalar a =>
    cases a with
    | null => exact .inr ⟨_, rfl⟩
    | _ => exact .inl rfl
  | table entries =>
    have hmcp : ∃ mcp, entries.lookup "mcp".toList = some mcp ∧ ∀ fields, mcp ≠ .table fields := by
      by_contra hnone
      push Not at hnone
      exact h ⟨entries, rfl, hnone⟩
    obtain ⟨mcp, hlook, hmcp⟩ := hmcp
    unfold spliceOpenCode ensureServers
    simp only [get_table, hlook, Option.isNone_some, Bool.false_eq_true, if_false, bind, Except.bind,
      index_table hlook]
    cases mcp with
    | table fields => exact absurd rfl (hmcp fields)
    | string t => exact .inl rfl
    | array items => exact .inl rfl
    | scalar a =>
      cases a with
      | null =>
        have hput : (insertEntry "mcp" (.table [("servers", .table [])])
            entries).lookup "mcp".toList = some (.table [("servers", .table [])]) := by
          rw [lookup_insertEntry, if_pos rfl]
        right
        simp only [Doc.get, asTable, Option.bind_none, Option.isNone_none, if_true, assign,
          index_table hput]
        exact ⟨_, rfl⟩
      | _ => exact .inl rfl

theorem not_onTables_of_not_mcpTable {doc : JsonValue} {serverName : Text} (h : ¬ McpTable doc) :
    ¬ OnTables ["mcp", "servers", serverName] doc := by
  intro htables
  obtain ⟨entries, rfl⟩ := htables [] _ rfl (List.cons_ne_nil _ _) doc rfl
  refine h ⟨entries, rfl, fun mcp hlook => ?_⟩
  refine htables ["mcp"] _ rfl (List.cons_ne_nil _ _) mcp ?_
  rw [getIn_cons, get_table, hlook]
  rfl

/-! ## The adapters -/

/-- The rewrite sets the entry of the server in the configuration of its agent. -/
def Adapter.Rewrites (crates : Crates) (adapter : Adapter) (original : Bytes)
    (gatewayUrl serverName : Text) : Prop :=
  match adapter with
  | claudeCode => OneEntry crates.json ["mcpServers", serverName] (claudeCodeEntry gatewayUrl)
      (baseDoc crates.json crates.utf8Error (.table [("mcpServers", .table [])]) original)
      (rewrite crates claudeCode original gatewayUrl serverName)
  | codex => OneEntry crates.toml ["mcp_servers", serverName] (codexEntry gatewayUrl)
      (baseDoc crates.toml crates.utf8Error (.table []) original)
      (rewrite crates codex original gatewayUrl serverName)
  | openCode => OneEntry crates.json ["mcp", "servers", serverName]
      (openCodeEntry gatewayUrl)
      (baseDoc crates.json crates.utf8Error
        (.table [("mcp", .table [("servers", .table [])])]) original)
      (rewrite crates openCode original gatewayUrl serverName)

/-- What is assumed of `serde_json` and `toml`, for the document that the rewrite prints. It is parsed back
from its text, but that `serde_json` may read a number again as another, or not at all. -/
def Adapter.Rereads (crates : Crates) (reread : JsonScalar → JsonScalar) (original : Bytes)
    (gatewayUrl serverName : Text) : Adapter → Prop
  | claudeCode => ∀ doc,
      edited crates.json crates.utf8Error (.table [("mcpServers", .table [])])
        (spliceUnder "mcpServers" "root not an object" "mcpServers not an object"
          serverName (claudeCodeEntry gatewayUrl)) original = .ok doc →
      crates.json.Rereads reread doc
  | codex => ∀ doc text, edited crates.toml crates.utf8Error (.table [])
        (spliceUnder "mcp_servers" "not a table" "mcp_servers not a table"
          serverName (codexEntry gatewayUrl)) original = .ok doc →
      crates.toml.print doc = .ok text → crates.toml.parse text = .ok doc
  | openCode => ∀ doc,
      edited crates.json crates.utf8Error
        (.table [("mcp", .table [("servers", .table [])])])
        (spliceOpenCode serverName (openCodeEntry gatewayUrl)) original = .ok doc →
      crates.json.Rereads reread doc

/-- The adapter can change this file in one entry: where only tables stand on the way to the entry, the
numbers of a JSON file that stand elsewhere are read again as they are; and for OpenCode, the root and
`mcp` are tables. -/
def Adapter.Changes (crates : Crates) (reread : JsonScalar → JsonScalar) (original : Bytes)
    (serverName : Text) : Adapter → Prop
  | claudeCode => ∀ doc, original ≠ [] → readDoc crates.json crates.utf8Error original = .ok doc →
      OnTables ["mcpServers", serverName] doc →
      Survives reread ["mcpServers", serverName] doc
  | codex => True
  | openCode => ∀ doc, original ≠ [] → readDoc crates.json crates.utf8Error original = .ok doc →
      McpTable doc ∧ (OnTables ["mcp", "servers", serverName] doc →
        Survives reread ["mcp", "servers", serverName] doc)

/-- **A rewrite is total and changes one entry**, for Codex whatever the file is, for Claude Code
exactly when the numbers outside of the entry are read again as they are, and for OpenCode exactly when
moreover tables stand on the way to `mcp.servers` in a file that can be read. -/
theorem rewrite_iff (crates : Crates)
    (hordered : ∀ text doc, crates.json.parse text = .ok doc → doc.ordered)
    (reread : JsonScalar → JsonScalar) (adapter : Adapter) (original : Bytes)
    (gatewayUrl serverName : Text)
    (hreread : adapter.Rereads crates reread original gatewayUrl serverName) :
    adapter.Rewrites crates original gatewayUrl serverName ↔
      adapter.Changes crates reread original serverName := by
  cases adapter with
  | claudeCode =>
    refine (oneEntry_iff (fun _ => True) hordered hreread rfl ⟨?_, rfl, trivial⟩
      (fun doc _ => spliced_spliceUnder ..) fun doc h => absurd trivial h).trans ?_
    · decide
    · simp only [Adapter.Changes, true_and]
  | codex =>
    refine ⟨fun _ => trivial, fun _ => oneEntry_patch (fun doc _ => spliced_spliceUnder ..) ?_⟩
    intro doc doc' text _ _ hedited hprint
    exact hreread doc' text hedited hprint
  | openCode =>
    refine oneEntry_iff McpTable hordered hreread rfl ⟨by decide, rfl, ?_⟩
      (fun doc h => spliced_spliceOpenCode h ..)
      fun doc h => ⟨not_onTables_of_not_mcpTable h, spliceOpenCode_of_not_mcpTable h ..⟩
    exact ⟨_, rfl, fun mcp hmcp => ⟨_, (Option.some.inj hmcp).symm⟩⟩

/-! ## Configurations of OpenCode

A setting beside an empty list of servers, a list and `null` for `mcp`, and what becomes of them. -/

def openCodeServers (rest : List (Text × JsonValue)) (servers : List (Text × JsonValue)) : JsonValue :=
  .table (("mcp", .table [("servers", .table servers)]) :: rest)

def openCodeText (rest : Text) : Text :=
  "\x7b\n  \"mcp\": \x7b\n    \"servers\": \x7b\n      \"a\": \x7b\n" ++
    "        \"type\": \"http\",\n        \"url\": \"u\"\n      \x7d\n    \x7d\n  \x7d" ++
    rest ++ "\n\x7d"

/-- `0.5`. -/
def temperature : Text × JsonValue := ("temperature", .scalar (.float 4602678819172646912))

def settings : Text := "\x7b\"mcp\": \x7b\"servers\": \x7b\x7d\x7d, \"temperature\": 0.5\x7d"

def mcpList : Text := "\x7b\"mcp\": []\x7d"

def mcpNull : Text := "\x7b\"mcp\": null\x7d"

def openCodeCrates : Crates where
  json := .ofRows [(settings, openCodeServers [temperature] []),
    (openCodeText ",\n  \"temperature\": 0.5",
      openCodeServers [temperature] [("a", openCodeEntry "u")]),
    (mcpList, .table [("mcp", .array [])]), (mcpNull, .table [("mcp", .scalar .null)]),
    (openCodeText [], openCodeServers [] [("a", openCodeEntry "u")])]
  toml := .ofRows []
  utf8Error _ := []

/-- A server is added to the settings. -/
theorem rewrite_iff_settings :
    Adapter.openCode.rewrite openCodeCrates (Text.utf8 settings) "u" "a" =
        .ok (openCodeText ",\n  \"temperature\": 0.5") ∧
      Adapter.openCode.Rewrites openCodeCrates (Text.utf8 settings) "u" "a" := by
  have hread : readDoc openCodeCrates.json openCodeCrates.utf8Error (Text.utf8 settings) =
      .ok (openCodeServers [temperature] []) := by
    rw [readDoc_utf8]
    rfl
  have hedited : edited openCodeCrates.json openCodeCrates.utf8Error
      (.table [("mcp", .table [("servers", .table [])])])
      (spliceOpenCode "a" (openCodeEntry "u")) (Text.utf8 settings) =
      .ok (openCodeServers [temperature] [("a", openCodeEntry "u")]) := by
    rw [edited, baseDoc, if_neg (by decide), hread]
    rfl
  refine ⟨by rw [Adapter.rewrite, patch_eq, hedited]; rfl, ?_⟩
  refine (rewrite_iff _ (Doc.Format.ofRows_ordered (by decide)) id .openCode _ _ _ ?_).2 ?_
  · intro doc hdoc
    cases hedited.symm.trans hdoc
    refine ⟨⟨_, rfl⟩, fun text doc' hprint hparse => ?_, fun text hprint _ => ?_⟩
    · cases hprint
      cases hparse
      rfl
    · cases hprint
      rfl
  · intro doc _ hdoc
    cases hread.symm.trans hdoc
    refine ⟨⟨_, rfl, fun mcp hmcp => ⟨_, (Option.some.inj hmcp).symm⟩⟩, fun _ => ?_⟩
    exact survives_of_mapScalars rfl _

/-- OpenCode panics at a list for `mcp`, and overwrites `null`. -/
theorem openCode_rewrite_odd :
    (Adapter.openCode.rewrite openCodeCrates (Text.utf8 mcpList) "u" "a" =
        .error .panicked ∧
      ¬ Adapter.openCode.Rewrites openCodeCrates (Text.utf8 mcpList) "u" "a") ∧
    (Adapter.openCode.rewrite openCodeCrates (Text.utf8 mcpNull) "u" "a" =
        .ok (openCodeText []) ∧
      ¬ Adapter.openCode.Rewrites openCodeCrates (Text.utf8 mcpNull) "u" "a") := by
  have hlist : Adapter.openCode.rewrite openCodeCrates (Text.utf8 mcpList) "u" "a" =
      .error .panicked := by
    unfold Adapter.rewrite patch
    rw [readDoc_utf8]
    rfl
  have hnull : Adapter.openCode.rewrite openCodeCrates (Text.utf8 mcpNull) "u" "a" =
      .ok (openCodeText []) := by
    unfold Adapter.rewrite patch
    rw [readDoc_utf8]
    rfl
  refine ⟨⟨hlist, fun h => ?_⟩, hnull, fun h => ?_⟩
  · rw [Adapter.Rewrites, hlist] at h
    exact h rfl
  · rw [Adapter.Rewrites, hnull] at h
    obtain ⟨doc, doc', hbase, -, hsets⟩ := h
    rw [baseDoc, if_neg (by decide), readDoc_utf8] at hbase
    cases hbase
    refine not_onTables_of_not_mcpTable ?_ hsets.tables
    rintro ⟨entries, heq, hmcp⟩
    cases heq
    obtain ⟨fields, hfields⟩ := hmcp (.scalar .null) rfl
    cases hfields

end Entanglement.Agent
