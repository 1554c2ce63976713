import Entanglement.Lib.Doc
import Entanglement.Lib.Fold

/-!
# Sessions of the agent host (`entangle-agent-host`)

A session patches the configuration file of a coding agent, so that the agent talks to the gateway,
and puts the original back when it ends. Each adapter knows where its agent keeps the file and where
in it the servers are listed. A snapshot is the bytes of the file, and none for a file that is not
there: `finish_iff` says when ending a session brings the file back to what it was.
-/

namespace Entanglement.Agent

open Lib

/-- `panicked` stands for an assignment through an index that `serde_json` refuses. -/
inductive AdapterError
  | parse (message : Text)
  | io (message : Text)
  | panicked
  deriving DecidableEq

inductive SessionError
  | unknownAgent (name : Text)
  | adapter (e : AdapterError)
  deriving DecidableEq

/-- What the adapters take from other crates. -/
structure Crates where
  json : Doc.Format JsonScalar
  toml : Doc.Format TomlScalar
  /-- The text of the error for bytes that are no UTF-8. -/
  utf8Error : Bytes → Text

/-! ## Rewriting a configuration -/

section Patch
variable {σ : Type}

def readDoc (format : Doc.Format σ) (utf8Error : Bytes → Text) (bytes : Bytes) :
    Except AdapterError (Doc σ) :=
  match Text.fromUtf8 bytes with
  | none => .error (.parse (utf8Error bytes))
  | some text => (format.parse text).mapError .parse

/-- What every adapter does: read the snapshot, or start from `blank` when it is empty, put the server
in, and print. -/
def patch (format : Doc.Format σ) (utf8Error : Bytes → Text) (blank : Doc σ)
    (splice : Doc σ → Except AdapterError (Doc σ)) (original : Bytes) : Except AdapterError Text := do
  let doc ← if original = [] then .ok blank else readDoc format utf8Error original
  let doc ← splice doc
  (format.print doc).mapError .parse

theorem readDoc_utf8 (format : Doc.Format σ) (utf8Error : Bytes → Text) (text : Text) :
    readDoc format utf8Error (Text.utf8 text) = (format.parse text).mapError .parse := by
  unfold readDoc
  rw [Text.fromUtf8_utf8]

theorem patch_eq_ok {format : Doc.Format σ} {utf8Error : Bytes → Text} {blank : Doc σ}
    {splice : Doc σ → Except AdapterError (Doc σ)} {original : Bytes} {config : Text}
    (h : patch format utf8Error blank splice original = .ok config) :
    ∃ doc doc', (original ≠ [] → readDoc format utf8Error original = .ok doc) ∧
      splice doc = .ok doc' ∧ format.print doc' = .ok config := by
  unfold patch at h
  by_cases horiginal : original = []
  · simp only [if_pos horiginal] at h
    obtain ⟨doc, -, h⟩ := except_bind_eq_ok.1 h
    obtain ⟨doc', hdoc', h⟩ := except_bind_eq_ok.1 h
    exact ⟨doc, doc', absurd horiginal, hdoc', except_mapError_eq_ok.1 h⟩
  · simp only [if_neg horiginal] at h
    obtain ⟨doc, hdoc, h⟩ := except_bind_eq_ok.1 h
    obtain ⟨doc', hdoc', h⟩ := except_bind_eq_ok.1 h
    exact ⟨doc, doc', fun _ => hdoc, hdoc', except_mapError_eq_ok.1 h⟩

/-- Put a server into the table at `key` of the root, which is made if it is not there. -/
def spliceUnder (key notRoot notTable : Text) (serverName : Text) (entry : Doc σ) :
    Doc σ → Except AdapterError (Doc σ)
  | .table entries =>
    match (entries.lookup key).getD (.table []) with
    | .table servers =>
      .ok (.table (Doc.insertEntry key (.table (Doc.insertEntry serverName entry servers)) entries))
    | _ => .error (.parse notTable)
  | _ => .error (.parse notRoot)

end Patch

def claudeCodeEntry (gatewayUrl : Text) : JsonValue :=
  .table [("headers", .table [("X-Entangle-Session", .string "managed")]),
    ("type", .string "http"), ("url", .string gatewayUrl)]

def codexEntry (gatewayUrl : Text) : TomlValue :=
  .table [("transport", .string "http"), ("url", .string gatewayUrl)]

def openCodeEntry (gatewayUrl : Text) : JsonValue :=
  .table [("type", .string "http"), ("url", .string gatewayUrl)]

/-- `value[key]`: null when there is no such field. -/
def index (v : JsonValue) (key : Text) : JsonValue := (v.get key).getD (.scalar .null)

/-- `value[key] = field`: null becomes an object, and what is no object panics. -/
def assign (v : JsonValue) (key : Text) (field : JsonValue) : Except AdapterError JsonValue :=
  match v with
  | .scalar .null => .ok (.table [(key, field)])
  | .table entries => .ok (.table (Doc.insertEntry key field entries))
  | _ => .error .panicked

/-- `mcp.servers`, made if it is not there. -/
def ensureServers (json : JsonValue) : Except AdapterError JsonValue := do
  let json ← if (json.get "mcp").isNone then
      assign json "mcp" (.table [("servers", .table [])])
    else .ok json
  if ((index json "mcp").get "servers").isNone then do
    let mcp ← assign (index json "mcp") "servers" (.table [])
    assign json "mcp" mcp
  else .ok json

def spliceOpenCode (serverName : Text) (entry : JsonValue) (json : JsonValue) :
    Except AdapterError JsonValue := do
  let json ← ensureServers json
  match index (index json "mcp") "servers" with
  | .table servers => do
    let mcp ← assign (index json "mcp") "servers"
      (.table (Doc.insertEntry serverName entry servers))
    assign json "mcp" mcp
  | _ => .error (.parse "mcp.servers missing or not an object")

/-! ## The adapters -/

inductive Adapter
  | claudeCode
  | codex
  | openCode
  deriving DecidableEq

namespace Adapter

def name : Adapter → Text
  | claudeCode => "claude-code"
  | codex => "codex"
  | openCode => "opencode"

/-- The path of the configuration; `home` is the variable `HOME`. -/
def configPath (home : Option Text) : Adapter → Except AdapterError Text
  | claudeCode => .ok ".mcp.json"
  | codex => match home with
    | none => .error (.io "HOME unset")
    | some home => .ok (home ++ "/.codex/config.toml")
  | openCode => match home with
    | none => .error (.io "HOME unset")
    | some home => .ok (home ++ "/.config/opencode/config.json")

/-- `Adapter::rewrite`. -/
def rewrite (crates : Crates) (adapter : Adapter) (original : Bytes) (gatewayUrl serverName : Text) :
    Except AdapterError Text :=
  match adapter with
  | claudeCode => patch crates.json crates.utf8Error (.table [("mcpServers", .table [])])
      (spliceUnder "mcpServers" "root not an object" "mcpServers not an object"
        serverName (claudeCodeEntry gatewayUrl)) original
  | codex => patch crates.toml crates.utf8Error (.table [])
      (spliceUnder "mcp_servers" "not a table" "mcp_servers not a table"
        serverName (codexEntry gatewayUrl)) original
  | openCode => patch crates.json crates.utf8Error
      (.table [("mcp", .table [("servers", .table [])])])
      (spliceOpenCode serverName (openCodeEntry gatewayUrl)) original

end Adapter

def findAdapter (name : Text) : Option Adapter :=
  [.claudeCode, .codex, .openCode].find? fun a => Text.eqIgnoreAsciiCase a.name name

/-! ## Sessions -/

/-- The contents of the files. -/
abbrev Disk := Text → Option Bytes

/-- The snapshot of a file: a read that fails, for whatever reason, leaves no bytes. The three adapters
do the same. -/
def snapshot (readFails : Bool) (file : Option Bytes) : Bytes :=
  if readFails then [] else file.getD []

/-- `Adapter::restore`: no bytes stand for no file. -/
def restoreFile (disk : Disk) (path : Text) (original : Bytes) : Disk :=
  Function.update disk path (if original = [] then none else some original)

/-- `AgentSession`. -/
structure Session where
  adapter : Adapter
  configPath : Text
  snapshot : Bytes
  deriving DecidableEq

/-- The failures of the file system that a start meets. -/
structure Faults where
  read : Bool
  write : Option Text

/-- `AgentSession::start`: the session, and the disk with the patched file. -/
def Session.start (crates : Crates) (home : Option Text) (faults : Faults) (disk : Disk)
    (agentName gatewayUrl serverName : Text) : Except SessionError (Session × Disk) :=
  match findAdapter agentName with
  | none => .error (.unknownAgent agentName)
  | some adapter => do
    let path ← (adapter.configPath home).mapError .adapter
    let snap := Agent.snapshot faults.read (disk path)
    let config ← (adapter.rewrite crates snap gatewayUrl serverName).mapError .adapter
    match faults.write with
    | some message => .error (.adapter (.io message))
    | none => .ok (⟨adapter, path, snap⟩, Function.update disk path (some (Text.utf8 config)))

/-- How a session ends. -/
inductive Ending
  | restore
  | drop
  deriving DecidableEq

/-- The disk after a session has ended: `restore` consumes the session, which is then dropped and so
restores once more. -/
def Session.finish (session : Session) (ending : Ending) (disk : Disk) : Disk :=
  match ending with
  | .drop => restoreFile disk session.configPath session.snapshot
  | .restore =>
    restoreFile (restoreFile disk session.configPath session.snapshot) session.configPath
      session.snapshot

variable {crates : Crates} {home : Option Text} {faults : Faults} {disk disk' : Disk}
  {agentName gatewayUrl serverName : Text} {session : Session}

theorem finish_eq (session : Session) (ending : Ending) (disk : Disk) :
    session.finish ending disk = restoreFile disk session.configPath session.snapshot := by
  cases ending with
  | drop => rfl
  | restore => exact Function.update_idem ..

/-- What a start has done. -/
structure Started (crates : Crates) (home : Option Text) (faults : Faults) (disk : Disk)
    (agentName gatewayUrl serverName : Text) (session : Session) (disk' : Disk) : Prop where
  adapter : findAdapter agentName = some session.adapter
  configPath : session.adapter.configPath home = .ok session.configPath
  snapshot : session.snapshot = Agent.snapshot faults.read (disk session.configPath)
  written : ∃ config, session.adapter.rewrite crates session.snapshot gatewayUrl serverName =
      .ok config ∧ disk' = Function.update disk session.configPath (some (Text.utf8 config))

theorem start_eq_ok
    (h : Session.start crates home faults disk agentName gatewayUrl serverName = .ok (session, disk')) :
    Started crates home faults disk agentName gatewayUrl serverName session disk' := by
  unfold Session.start at h
  split at h
  · cases h
  · next adapter hadapter =>
    obtain ⟨path, hpath, h⟩ := except_bind_eq_ok.1 h
    obtain ⟨config, hconfig, h⟩ := except_bind_eq_ok.1 h
    split at h
    · cases h
    · cases h
      exact ⟨hadapter, except_mapError_eq_ok.1 hpath, rfl, config, except_mapError_eq_ok.1 hconfig,
        rfl⟩

theorem start_of_rewrite {adapter : Adapter} {path config : Text}
    (hadapter : findAdapter agentName = some adapter) (hpath : adapter.configPath home = .ok path)
    (hconfig : adapter.rewrite crates (snapshot faults.read (disk path)) gatewayUrl serverName =
      .ok config) (hwrite : faults.write = none) :
    Session.start crates home faults disk agentName gatewayUrl serverName =
      .ok (⟨adapter, path, snapshot faults.read (disk path)⟩,
        Function.update disk path (some (Text.utf8 config))) := by
  unfold Session.start
  simp only [hadapter, hpath, hwrite, Except.mapError, bind, Except.bind, hconfig]

/-- **An agent session leaves no trace**: once it has ended the files are as they were, exactly when
the configuration was not there, or could be read and was not empty. -/
theorem finish_iff (crates : Crates) (home : Option Text) (faults : Faults) (disk : Disk)
    (agentName gatewayUrl serverName : Text)
    (h : Session.start crates home faults disk agentName gatewayUrl serverName = .ok (session, disk'))
    (ending : Ending) :
    session.finish ending disk' = disk ↔
      ∀ bytes, disk session.configPath = some bytes → faults.read = false ∧ bytes ≠ [] := by
  obtain ⟨-, -, hsnap, config, -, rfl⟩ := start_eq_ok h
  have hsame : session.finish ending
        (Function.update disk session.configPath (some (Text.utf8 config))) = disk ↔
      (if session.snapshot = [] then none else some session.snapshot) =
        disk session.configPath := by
    rw [finish_eq, restoreFile, Function.update_idem, Function.update_eq_self_iff]
  rw [hsame, hsnap, snapshot]
  cases hfile : disk session.configPath with
  | none => simp
  | some bytes => cases hread : faults.read <;> by_cases hempty : bytes = [] <;> simp [hempty]

/-! ## A configuration for concrete runs

The configuration of Claude Code without servers, with one, and with two, and the texts that
`serde_json` makes of them. -/

def sampleServers (names : List Text) : JsonValue :=
  .table [("mcpServers", .table (names.map fun n => (n, claudeCodeEntry n)))]

def serverText (n : Text) : Text :=
  "    \"" ++ n ++ "\": \x7b\n      \"headers\": \x7b\n" ++
    "        \"X-Entangle-Session\": \"managed\"\n      \x7d,\n" ++
    "      \"type\": \"http\",\n      \"url\": \"" ++ n ++ "\"\n    \x7d"

def configText (names : List Text) : Text :=
  "\x7b\n  \"mcpServers\": \x7b\n" ++ ",\n".toList.intercalate (names.map serverText) ++
    "\n  \x7d\n\x7d"

def noServers : Text := "\x7b\x7d"

def oneServer : Text := configText ["a"]

def twoServers : Text := configText ["a", "b"]

def sampleCrates : Crates where
  json := .ofRows [(noServers, .table []), (oneServer, sampleServers ["a"]),
    (twoServers, sampleServers ["a", "b"])]
  toml := .ofRows []
  utf8Error _ := []

def sampleDisk (file : Option Bytes) : Disk := Function.update (fun _ => none) ".mcp.json" file

theorem rewrite_sample :
    Adapter.claudeCode.rewrite sampleCrates (Text.utf8 noServers) "a" "a" =
      .ok oneServer := by
  unfold Adapter.rewrite patch
  rw [readDoc_utf8]
  rfl

theorem rewrite_sample_two :
    Adapter.claudeCode.rewrite sampleCrates (Text.utf8 oneServer) "b" "b" =
      .ok twoServers := by
  unfold Adapter.rewrite patch
  rw [readDoc_utf8]
  rfl

/-- A session on a configuration that was there. -/
theorem finish_iff_sample :
    ∃ session disk', Session.start sampleCrates none ⟨false, none⟩
        (sampleDisk (some (Text.utf8 noServers))) "Claude-Code" "a" "a" =
        .ok (session, disk') ∧
      session.finish .restore disk' = sampleDisk (some (Text.utf8 noServers)) := by
  have hstart : Session.start sampleCrates none ⟨false, none⟩
      (sampleDisk (some (Text.utf8 noServers))) "Claude-Code" "a" "a" =
      .ok (⟨.claudeCode, ".mcp.json", Text.utf8 noServers⟩,
        Function.update (sampleDisk (some (Text.utf8 noServers))) ".mcp.json"
          (some (Text.utf8 oneServer))) :=
    start_of_rewrite rfl rfl rewrite_sample rfl
  refine ⟨_, _, hstart, (finish_iff _ _ _ _ _ _ _ hstart .restore).2 ?_⟩
  intro bytes hbytes
  cases hbytes
  exact ⟨rfl, by decide⟩

/-- An empty configuration is deleted. -/
theorem finish_empty :
    ∃ session disk', Session.start sampleCrates none ⟨false, none⟩ (sampleDisk (some []))
        "claude-code" "a" "a" = .ok (session, disk') ∧
      session.finish .restore disk' ".mcp.json" = none ∧
      sampleDisk (some []) ".mcp.json" = some [] := by
  refine ⟨⟨.claudeCode, ".mcp.json", []⟩, _, rfl, rfl, rfl⟩

end Entanglement.Agent
