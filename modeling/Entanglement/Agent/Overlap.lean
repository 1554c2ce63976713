import Entanglement.Agent.Session
import Entanglement.Lib.Fair

/-!
# Overlapping sessions of one agent

Several sessions of one agent patch the same file, each over what the one before has left. The files
that the live sessions have found lie on each other like the plates of a stack (`Nested`): taking off
the upper one brings back the one below. A session that ends before a later one writes the file as it
was before both, and takes the later one's server out of it.
-/

namespace Entanglement.Agent

open Lib

/-! ## What a rewritten configuration holds -/

section Holds
variable {σ : Type} {format : Doc.Format σ} {utf8Error : Bytes → Text} {blank : Doc σ}
  {splice : Doc σ → Except AdapterError (Doc σ)} {servers : List Text} {serverName : Text}
  {entry : Doc σ} {original : Bytes} {config : Text}

/-- The file parses to a document with the entry under the path. -/
def Holds (format : Doc.Format σ) (bytes : Bytes) (path : List Text) (entry : Doc σ) : Prop :=
  ∃ text doc, Text.fromUtf8 bytes = some text ∧ format.parse text = .ok doc ∧
    doc.getIn path = some entry

/-- A splice puts its entry beside the others. -/
structure Splices (splice : Doc σ → Except AdapterError (Doc σ)) (servers : List Text)
    (serverName : Text) (entry : Doc σ) : Prop where
  added : ∀ doc doc', splice doc = .ok doc' → doc'.getIn (servers ++ [serverName]) = some entry
  kept : ∀ doc doc', splice doc = .ok doc' → ∀ other sub, other ≠ serverName →
    doc.getIn (servers ++ [other]) = some sub → doc'.getIn (servers ++ [other]) = some sub

theorem getIn_table {doc : Doc σ} {key : Text} {servers : List (Text × Doc σ)}
    (hkey : doc.get key = some (.table servers)) (other : Text) :
    doc.getIn [key, other] = servers.lookup other := by
  rw [Doc.getIn, hkey, Option.bind_some, Doc.getIn, Doc.get, Doc.asTable, Option.bind_some]
  cases servers.lookup other <;> rfl

theorem spliceUnder_splices (key notRoot notTable serverName : Text) (entry : Doc σ) :
    Splices (spliceUnder key notRoot notTable serverName entry) [key] serverName entry := by
  have hcases : ∀ doc doc', spliceUnder key notRoot notTable serverName entry doc = .ok doc' →
      ∃ entries servers, doc = .table entries ∧
        (entries.lookup key).getD (.table []) = .table servers ∧ ∀ other,
        doc'.getIn [key, other] = (Doc.insertEntry serverName entry servers).lookup other := by
    intro doc doc' h
    unfold spliceUnder at h
    split at h
    · next entries =>
      split at h
      · next servers hservers =>
        cases h
        refine ⟨entries, servers, rfl, hservers, ?_⟩
        intro other
        exact getIn_table (by rw [Doc.get, Doc.asTable, Option.bind_some, Doc.lookup_insertEntry,
          if_pos rfl]) other
      · cases h
    · cases h
  constructor
  · intro doc doc' h
    obtain ⟨entries, servers, -, -, hget⟩ := hcases doc doc' h
    rw [List.singleton_append, hget, Doc.lookup_insertEntry, if_pos rfl]
  · intro doc doc' h other sub hne hsub
    obtain ⟨entries, servers, rfl, hservers, hget⟩ := hcases doc doc' h
    rw [List.singleton_append] at hsub ⊢
    rw [hget, Doc.lookup_insertEntry, if_neg hne]
    cases hkey : entries.lookup key with
    | none => simp [Doc.getIn, Doc.get, Doc.asTable, hkey] at hsub
    | some v =>
      rw [hkey, Option.getD_some] at hservers
      have hget : (Doc.table entries).get key = some (.table servers) := by
        rw [Doc.get, Doc.asTable, Option.bind_some, hkey, hservers]
      rw [← getIn_table hget other]
      exact hsub

theorem patch_holds (hformat : format.Faithful) (hsplice : Splices splice servers serverName entry)
    (hplain : entry.plain) (h : patch format utf8Error blank splice original = .ok config) :
    Holds format (Text.utf8 config) (servers ++ [serverName]) entry := by
  obtain ⟨doc, doc', -, hdoc', hprint⟩ := patch_eq_ok h
  obtain ⟨read, hread, hkeeps⟩ := hformat.reads doc' config hprint
  exact ⟨config, read, Text.fromUtf8_utf8 config, hread,
    hkeeps _ _ hplain (hsplice.added doc doc' hdoc')⟩

theorem patch_keeps (hformat : format.Faithful) (hsplice : Splices splice servers serverName entry)
    (horiginal : original ≠ []) {other : Text} (hne : other ≠ serverName) {sub : Doc σ}
    (hplain : sub.plain) (hsub : Holds format original (servers ++ [other]) sub)
    (h : patch format utf8Error blank splice original = .ok config) :
    Holds format (Text.utf8 config) (servers ++ [other]) sub := by
  obtain ⟨doc, doc', hdoc, hdoc', hprint⟩ := patch_eq_ok h
  obtain ⟨read, hread, hkeeps⟩ := hformat.reads doc' config hprint
  obtain ⟨text, parsed, htext, hparsed, hget⟩ := hsub
  have hsame : parsed = doc := by
    have hdoc := hdoc horiginal
    rw [readDoc, htext] at hdoc
    exact Except.ok.inj (hparsed.symm.trans (except_mapError_eq_ok.1 hdoc))
  refine ⟨config, read, Text.fromUtf8_utf8 config, hread, hkeeps _ _ hplain ?_⟩
  exact hsplice.kept doc doc' hdoc' other sub hne (hsame ▸ hget)

/-- A file that holds something is not empty. -/
theorem Holds.ne_nil (hformat : format.Faithful) {bytes : Bytes} {key : Text} {path : List Text}
    (h : Holds format bytes (key :: path) entry) : bytes ≠ [] := by
  rintro rfl
  obtain ⟨text, doc, htext, hdoc, hget⟩ := h
  have hempty : text = [] := Option.some.inj (htext.symm.trans (Text.fromUtf8_utf8 []))
  rw [hformat.blank doc (hempty ▸ hdoc)] at hget
  cases hget

end Holds

theorem get_assign {v v' field : JsonValue} {key : Text} (h : assign v key field = .ok v') :
    v'.get key = some field := by
  unfold assign at h
  split at h
  · cases h
    exact List.lookup_cons_self
  · cases h
    rw [Doc.get, Doc.asTable, Option.bind_some, Doc.lookup_insertEntry, if_pos rfl]
  · cases h

/-- Where there is a server already, nothing is made. -/
theorem ensureServers_eq {json json' sub : JsonValue} {other : Text}
    (hsub : json.getIn ["mcp", "servers", other] = some sub)
    (h : ensureServers json = .ok json') : json' = json := by
  obtain ⟨mcp, hmcp, hsub⟩ := Option.bind_eq_some_iff.1 hsub
  obtain ⟨servers, hservers, -⟩ := Option.bind_eq_some_iff.1 hsub
  have hindex : index json "mcp" = mcp := by rw [index, hmcp, Option.getD_some]
  unfold ensureServers at h
  simp only [hmcp, Option.isNone_some, Bool.false_eq_true, if_false] at h
  obtain ⟨json₁, hjson₁, h⟩ := except_bind_eq_ok.1 h
  cases hjson₁
  simp only [hindex, hservers, Option.isNone_some, Bool.false_eq_true, if_false] at h
  exact (Except.ok.inj h).symm

theorem index_eq_table {v : JsonValue} {key : Text} {entries : List (Text × JsonValue)}
    (h : index v key = .table entries) : v.get key = some (.table entries) := by
  unfold index at h
  cases hget : v.get key with
  | none => rw [hget] at h; cases h
  | some field => rw [hget, Option.getD_some] at h; rw [h]

theorem spliceOpenCode_splices (serverName : Text) (entry : JsonValue) :
    Splices (spliceOpenCode serverName entry) ["mcp", "servers"] serverName entry := by
  have hcases : ∀ doc doc', spliceOpenCode serverName entry doc = .ok doc' →
      ∃ json servers, ensureServers doc = .ok json ∧
        (index json "mcp").get "servers" = some (.table servers) ∧ ∀ other,
        doc'.getIn ["mcp", "servers", other] =
          (Doc.insertEntry serverName entry servers).lookup other := by
    intro doc doc' h
    unfold spliceOpenCode at h
    obtain ⟨json, hjson, h⟩ := except_bind_eq_ok.1 h
    split at h
    · next servers hservers =>
      obtain ⟨mcp, hmcp, h⟩ := except_bind_eq_ok.1 h
      refine ⟨json, servers, hjson, index_eq_table hservers, ?_⟩
      intro other
      rw [Doc.getIn, get_assign h, Option.bind_some, getIn_table (get_assign hmcp)]
    · cases h
  constructor
  · intro doc doc' h
    obtain ⟨json, servers, -, -, hget⟩ := hcases doc doc' h
    rw [List.cons_append, List.singleton_append, hget, Doc.lookup_insertEntry, if_pos rfl]
  · intro doc doc' h other sub hne hsub
    obtain ⟨json, servers, hjson, hservers, hget⟩ := hcases doc doc' h
    rw [List.cons_append, List.singleton_append] at hsub ⊢
    rw [hget, Doc.lookup_insertEntry, if_neg hne]
    rw [ensureServers_eq hsub hjson] at hservers
    obtain ⟨mcp, hmcp, hsub⟩ := Option.bind_eq_some_iff.1 hsub
    rw [index, hmcp, Option.getD_some] at hservers
    rw [← getIn_table hservers other]
    exact hsub

/-- The configuration holds the entry of a session with this server name and URL. -/
def Contains (crates : Crates) (adapter : Adapter) (bytes : Bytes) (serverName gatewayUrl : Text) :
    Prop :=
  match adapter with
  | .claudeCode =>
    Holds crates.json bytes ["mcpServers", serverName] (claudeCodeEntry gatewayUrl)
  | .codex => Holds crates.toml bytes ["mcp_servers", serverName] (codexEntry gatewayUrl)
  | .openCode =>
    Holds crates.json bytes ["mcp", "servers", serverName] (openCodeEntry gatewayUrl)

/-- The parsers and printers read back what they print. -/
structure Crates.Faithful (crates : Crates) : Prop where
  json : crates.json.Faithful
  toml : crates.toml.Faithful

section Rewrite
variable {crates : Crates} (hcrates : crates.Faithful) {adapter : Adapter} {original bytes : Bytes}
  {gatewayUrl serverName other url : Text} {config : Text}

include hcrates

theorem rewrite_contains
    (h : adapter.rewrite crates original gatewayUrl serverName = .ok config) :
    Contains crates adapter (Text.utf8 config) serverName gatewayUrl := by
  cases adapter with
  | claudeCode => exact patch_holds hcrates.json (spliceUnder_splices ..) rfl h
  | codex => exact patch_holds hcrates.toml (spliceUnder_splices ..) rfl h
  | openCode => exact patch_holds hcrates.json (spliceOpenCode_splices ..) rfl h

theorem rewrite_keeps (horiginal : original ≠ []) (hne : other ≠ serverName)
    (hother : Contains crates adapter original other url)
    (h : adapter.rewrite crates original gatewayUrl serverName = .ok config) :
    Contains crates adapter (Text.utf8 config) other url := by
  cases adapter with
  | claudeCode =>
    exact patch_keeps hcrates.json (spliceUnder_splices ..) horiginal hne rfl hother h
  | codex => exact patch_keeps hcrates.toml (spliceUnder_splices ..) horiginal hne rfl hother h
  | openCode =>
    exact patch_keeps hcrates.json (spliceOpenCode_splices ..) horiginal hne rfl hother h

theorem Contains.ne_nil (h : Contains crates adapter bytes serverName gatewayUrl) : bytes ≠ [] := by
  cases adapter with
  | claudeCode => exact Holds.ne_nil hcrates.json h
  | codex => exact Holds.ne_nil hcrates.toml h
  | openCode => exact Holds.ne_nil hcrates.json h

end Rewrite

/-! ## Sessions side by side -/

/-- A session that has not ended. -/
structure Live where
  serverName : Text
  gatewayUrl : Text
  session : Session
  deriving DecidableEq

/-- The disk and the live sessions, the last one started first. -/
structure Sessions where
  disk : Disk
  live : List Live

def Sessions.names (s : Sessions) : List Text := s.live.map Live.serverName

/-- What the users of one agent do. -/
inductive Op
  | start (agentName gatewayUrl serverName : Text)
  | finish (serverName : Text) (ending : Ending)

/-- The sessions of one agent, on files that can be read and written. A start is of a server name that
no live session has, and one that fails leaves everything as it was. -/
def sessions (crates : Crates) (home : Option Text) (adapter : Adapter) (disk : Disk) :
    Lts Sessions Op where
  init s := s = ⟨disk, []⟩
  next s
    | .start agentName gatewayUrl serverName =>
      if findAdapter agentName = some adapter ∧ ∀ l ∈ s.live, l.serverName ≠ serverName then
        match Session.start crates home ⟨false, none⟩ s.disk agentName gatewayUrl serverName with
        | .ok (session, disk) => some ⟨disk, ⟨serverName, gatewayUrl, session⟩ :: s.live⟩
        | .error _ => some s
      else none
    | .finish serverName ending =>
      (s.live.find? fun l => l.serverName = serverName).map fun l =>
        ⟨l.session.finish ending s.disk, s.live.filter fun l => l.serverName ≠ serverName⟩

/-- The session that ends is the last one started of those that live. -/
def Lifo (s : Sessions) : Op → Prop
  | .start .. => True
  | .finish serverName _ => s.names.head? = some serverName

instance : ∀ s a, Decidable (Lifo s a)
  | _, .start .. => .isTrue trivial
  | s, .finish serverName _ => inferInstanceAs (Decidable (s.names.head? = some serverName))

/-! ## Sessions that end in order -/

/-- The files that the live sessions have found, one upon the other: each session holds the bytes that
the file had below it. -/
inductive Nested (crates : Crates) (adapter : Adapter) (path : Text) (disk : Disk) :
    List Live → Disk → Prop
  | nil : Nested crates adapter path disk [] disk
  | cons {l : Live} {live : List Live} {below : Disk} {bytes : Bytes} {config : Text} :
      Nested crates adapter path disk live below → below path = some bytes →
      l.session = ⟨adapter, path, bytes⟩ → (∀ l' ∈ live, l'.serverName ≠ l.serverName) →
      adapter.rewrite crates bytes l.gatewayUrl l.serverName = .ok config →
      Nested crates adapter path disk (l :: live)
        (Function.update below path (some (Text.utf8 config)))

variable {crates : Crates} {home : Option Text} {adapter : Adapter} {path : Text}
  {disk disk' : Disk} {live : List Live} {bytes : Bytes}

/-- The file is not empty, and holds the entries of all live sessions. -/
theorem Nested.file (hcrates : crates.Faithful) (hfile : disk path = some bytes) (hbytes : bytes ≠ [])
    (h : Nested crates adapter path disk live disk') :
    ∃ bytes, disk' path = some bytes ∧ bytes ≠ [] ∧
      ∀ l ∈ live, Contains crates adapter bytes l.serverName l.gatewayUrl := by
  induction h with
  | nil => exact ⟨bytes, hfile, hbytes, by simp⟩
  | @cons l live below found config _ hfound _ hfresh hconfig ih =>
    obtain ⟨found', hfound', hne, hheld⟩ := ih
    cases hfound.symm.trans hfound'
    have hnew := rewrite_contains hcrates hconfig
    refine ⟨Text.utf8 config, Function.update_self .., hnew.ne_nil hcrates, ?_⟩
    intro l' hl'
    rcases List.mem_cons.1 hl' with rfl | hl'
    · exact hnew
    · exact rewrite_keeps hcrates hne (hfresh l' hl') (hheld l' hl') hconfig

/-- Ending the upper session brings back the file below it. -/
theorem Nested.finish {l : Live} (hcrates : crates.Faithful) (hfile : disk path = some bytes)
    (hbytes : bytes ≠ []) (h : Nested crates adapter path disk (l :: live) disk') (ending : Ending) :
    Nested crates adapter path disk live (l.session.finish ending disk') := by
  cases h with
  | @cons _ _ below found config hbelow hfound hsession _ _ =>
    obtain ⟨found', hfound', hne, -⟩ := hbelow.file hcrates hfile hbytes
    cases hfound.symm.trans hfound'
    rw [finish_eq, hsession, restoreFile, Function.update_idem, if_neg hne, ← hfound,
      Function.update_eq_self]
    exact hbelow

theorem Nested.fresh {l : Live} (h : Nested crates adapter path disk (l :: live) disk') :
    ∀ l' ∈ live, l'.serverName ≠ l.serverName := by
  cases h with
  | cons _ _ _ hfresh _ => exact hfresh

theorem Nested.start (hcrates : crates.Faithful) (hpath : adapter.configPath home = .ok path)
    (hfile : disk path = some bytes) (hbytes : bytes ≠ [])
    (h : Nested crates adapter path disk live disk') {agentName gatewayUrl serverName : Text}
    (hadapter : findAdapter agentName = some adapter)
    (hfresh : ∀ l ∈ live, l.serverName ≠ serverName) {session : Session} {disk'' : Disk}
    (hstart : Session.start crates home ⟨false, none⟩ disk' agentName gatewayUrl serverName =
      .ok (session, disk'')) :
    Nested crates adapter path disk (⟨serverName, gatewayUrl, session⟩ :: live) disk'' := by
  obtain ⟨hsame, hwhere, hsnap, config, hconfig, rfl⟩ := start_eq_ok hstart
  obtain ⟨found, hfound, -, -⟩ := h.file hcrates hfile hbytes
  obtain ⟨adapter', path', snap⟩ := session
  cases hadapter.symm.trans hsame
  cases hpath.symm.trans hwhere
  have hbytes : snap = found := by
    change snap = snapshot false (disk' path') at hsnap
    rw [hsnap, hfound]
    rfl
  subst hbytes
  exact .cons h hfound rfl hfresh hconfig

/-- One step keeps the sessions nested. -/
theorem Nested.step (hcrates : crates.Faithful) (hpath : adapter.configPath home = .ok path)
    (hfile : disk path = some bytes) (hbytes : bytes ≠ []) {s s' : Sessions} {a : Op}
    (h : Nested crates adapter path disk s.live s.disk) (hlifo : Lifo s a)
    (hnext : (sessions crates home adapter disk).next s a = some s') :
    Nested crates adapter path disk s'.live s'.disk := by
  cases a with
  | start agentName gatewayUrl serverName =>
    simp only [sessions] at hnext
    split at hnext
    · next hguard =>
      split at hnext
      · next session disk'' hstart =>
        cases hnext
        exact h.start hcrates hpath hfile hbytes hguard.1 hguard.2 hstart
      · cases hnext
        exact h
    · cases hnext
  | finish serverName ending =>
    obtain ⟨disk', live⟩ := s
    cases live with
    | nil => cases hlifo
    | cons l live =>
      have hname : l.serverName = serverName := Option.some.inj hlifo
      subst hname
      have hrest : (l :: live).filter (fun l' => l'.serverName ≠ l.serverName) = live := by
        rw [List.filter_cons_of_neg (by simp), List.filter_eq_self]
        intro l' hl'
        simpa using h.fresh l' hl'
      have hstate : s' = ⟨l.session.finish ending disk', live⟩ := by
        simp only [sessions, List.find?_cons, decide_true, Option.map_some, hrest] at hnext
        exact (Option.some.inj hnext).symm
      rw [hstate]
      exact h.finish hcrates hfile hbytes ending

/-- **Overlapping agent sessions compose** if they end in the opposite order of their starts: the
configuration holds the entry of every live session, and once all have ended the files are as they were
before the first start. -/
theorem sessions_compose_of_lifo (crates : Crates) (hcrates : crates.Faithful) (home : Option Text)
    (adapter : Adapter) (path : Text) (hpath : adapter.configPath home = .ok path) (disk : Disk)
    (bytes : Bytes) (hfile : disk path = some bytes) (hbytes : bytes ≠ []) (ops : List Op)
    (s : Sessions) (hrun : (sessions crates home adapter disk).Path Lifo ⟨disk, []⟩ ops s) :
    (s.live = [] → s.disk = disk) ∧
      ∀ l ∈ s.live, ∃ bytes, s.disk path = some bytes ∧
        Contains crates adapter bytes l.serverName l.gatewayUrl := by
  have hnested : Nested crates adapter path disk s.live s.disk :=
    hrun.invariant (I := fun s => Nested crates adapter path disk s.live s.disk)
      (fun _ _ _ h hlifo hnext => h.step hcrates hpath hfile hbytes hlifo hnext) .nil
  constructor
  · intro hlive
    rw [hlive] at hnested
    cases hnested
    rfl
  · intro l hl
    obtain ⟨found, hfound, -, hheld⟩ := hnested.file hcrates hfile hbytes
    exact ⟨found, hfound, hheld l hl⟩

/-! ## Two sessions

The configuration of Claude Code, first without servers; a session `a` and then a session `b`. -/

theorem sampleCrates_faithful : sampleCrates.Faithful := by
  have htoml : (Doc.Format.ofRows ([] : List (Text × TomlValue))).RoundTrips :=
    Doc.Format.ofRows_roundTrips List.nodup_nil
  exact ⟨(Doc.Format.ofRows_roundTrips (by decide +kernel)).faithful nofun, htoml.faithful nofun⟩

def sampleSessions : Lts Sessions Op :=
  sessions sampleCrates none .claudeCode (sampleDisk (some (Text.utf8 noServers)))

/-- A session that has found the file with this text. -/
def sampleLive (serverName found : Text) : Live :=
  ⟨serverName, serverName, ⟨.claudeCode, ".mcp.json", Text.utf8 found⟩⟩

theorem update_sampleDisk (file file' : Option Bytes) :
    Function.update (sampleDisk file) ".mcp.json" file' = sampleDisk file' :=
  Function.update_idem ..

theorem sampleSessions_start {found config serverName : Text} {live : List Live}
    (hfresh : ∀ l ∈ live, l.serverName ≠ serverName)
    (hconfig : Adapter.claudeCode.rewrite sampleCrates (Text.utf8 found) serverName serverName =
      .ok config) :
    sampleSessions.next ⟨sampleDisk (some (Text.utf8 found)), live⟩
        (.start "claude-code" serverName serverName) =
      some ⟨sampleDisk (some (Text.utf8 config)), sampleLive serverName found :: live⟩ := by
  have hstart : Session.start sampleCrates none ⟨false, none⟩ (sampleDisk (some (Text.utf8 found)))
      "claude-code" serverName serverName =
      .ok (⟨.claudeCode, ".mcp.json", Text.utf8 found⟩,
        sampleDisk (some (Text.utf8 config))) := by
    rw [start_of_rewrite rfl rfl hconfig rfl, update_sampleDisk]
    rfl
  simp only [sampleSessions, sessions]
  rw [if_pos ⟨rfl, hfresh⟩, hstart]
  rfl

theorem sampleSessions_finish {file : Option Bytes} {serverName found : Text} {live : List Live}
    (hlive : live.find? (fun l => l.serverName = serverName) = some (sampleLive serverName found))
    (hfound : Text.utf8 found ≠ []) (ending : Ending) :
    sampleSessions.next ⟨sampleDisk file, live⟩ (.finish serverName ending) =
      some ⟨sampleDisk (some (Text.utf8 found)),
        live.filter fun l => l.serverName ≠ serverName⟩ := by
  simp only [sampleSessions, sessions, hlive, Option.map_some, finish_eq, sampleLive, restoreFile,
    if_neg hfound, update_sampleDisk]

/-- Both sessions are live. -/
theorem sampleSessions_both :
    sampleSessions.Path Lifo ⟨sampleDisk (some (Text.utf8 noServers)), []⟩
      [.start "claude-code" "a" "a",
        .start "claude-code" "b" "b"]
      ⟨sampleDisk (some (Text.utf8 twoServers)),
        [sampleLive "b" oneServer, sampleLive "a" noServers]⟩ :=
  .cons trivial (sampleSessions_start (by decide) rewrite_sample)
    (.cons trivial (sampleSessions_start (by decide) rewrite_sample_two) .nil)

/-- While both are live the configuration holds both entries; ended in order, they leave the file as it
was. -/
theorem sessions_compose_of_lifo_two :
    ∃ ops ops' s s',
      sampleSessions.Path Lifo ⟨sampleDisk (some (Text.utf8 noServers)), []⟩ ops s ∧
      sampleSessions.Path Lifo ⟨sampleDisk (some (Text.utf8 noServers)), []⟩ (ops ++ ops') s' ∧
      s.names = ["b".toList, "a"] ∧
      (∀ l ∈ s.live, ∃ bytes, s.disk ".mcp.json" = some bytes ∧
        Contains sampleCrates .claudeCode bytes l.serverName l.gatewayUrl) ∧
      s'.live = [] ∧ s'.disk = sampleDisk (some (Text.utf8 noServers)) := by
  have hends : sampleSessions.Path Lifo
      ⟨sampleDisk (some (Text.utf8 twoServers)),
        [sampleLive "b" oneServer, sampleLive "a" noServers]⟩
      [.finish "b" .restore, .finish "a" .drop]
      ⟨sampleDisk (some (Text.utf8 noServers)), []⟩ :=
    .cons rfl (sampleSessions_finish rfl (by decide) .restore)
      (.cons rfl (sampleSessions_finish rfl (by decide) .drop) .nil)
  have hall := sampleSessions_both.append hends
  refine ⟨_, _, _, _, sampleSessions_both, hall, rfl, ?_, rfl, ?_⟩
  · exact (sessions_compose_of_lifo sampleCrates sampleCrates_faithful none .claudeCode _ rfl _ _ rfl
      (by decide) _ _ sampleSessions_both).2
  · exact (sessions_compose_of_lifo sampleCrates sampleCrates_faithful none .claudeCode _ rfl _ _ rfl
      (by decide) _ _ hall).1 rfl

/-- The first session ends before the second: the second one's entry is gone while it is live, and
after its end the first one's entry is back. -/
theorem sessions_crossing :
    ∃ s s', sampleSessions.exec ⟨sampleDisk (some (Text.utf8 noServers)), []⟩
        [.start "claude-code" "a" "a",
          .start "claude-code" "b" "b", .finish "a" .restore] = some s ∧
      s.live = [sampleLive "b" oneServer] ∧
      (∀ bytes, s.disk ".mcp.json" = some bytes →
        ¬ Contains sampleCrates .claudeCode bytes "b" "b") ∧
      sampleSessions.exec s [.finish "b" .restore] = some s' ∧ s'.live = [] ∧
      s'.disk ".mcp.json" = some (Text.utf8 oneServer) := by
  refine ⟨⟨sampleDisk (some (Text.utf8 noServers)), [sampleLive "b" oneServer]⟩,
    ⟨sampleDisk (some (Text.utf8 oneServer)), []⟩, ?_, rfl, ?_, ?_, rfl, rfl⟩
  · exact Lts.exec_cons_eq_some.2 ⟨_, sampleSessions_start (by decide) rewrite_sample,
      Lts.exec_cons_eq_some.2 ⟨_, sampleSessions_start (by decide) rewrite_sample_two,
        Lts.exec_cons_eq_some.2 ⟨_, sampleSessions_finish rfl (by decide) .restore, rfl⟩⟩⟩
  · rintro bytes hbytes ⟨text, doc, htext, hdoc, hget⟩
    cases hbytes
    rw [Text.fromUtf8_utf8] at htext
    cases htext
    cases hdoc
    cases hget
  · exact Lts.exec_cons_eq_some.2 ⟨_, sampleSessions_finish rfl (by decide) .restore, rfl⟩

end Entanglement.Agent
