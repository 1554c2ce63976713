import Entanglement.Cli.Package
import Entanglement.Lib.Toml

/-!
# Scaffolding a plugin (`entangle-cli`, `scaffold.rs`)

`entangle plugins new` writes a project with a manifest in it, into which it puts the name, the tier
and the description that it was given. The description goes between quotes as it is. So the manifest
says what it was meant to say, and can be built, when the description needs no escapes, and not
otherwise (`scaffold_builds_iff`): a quote in it ends the string, and what follows is read as TOML.
-/

namespace Entanglement.Cli.Scaffold

open Lib Signing Manifests

/-! ## The manifest -/

def publisherPlaceholder : Text := "PUBLISHER_PLACEHOLDER"

/-- Lines of a text, each with its newline. -/
def unlines (lines : List Text) : Text := lines.flatMap fun line => line ++ ['\n']

def headComment : List Text :=
  ["# Entanglement plugin manifest (spec §4.4).",
   "#",
   "# `entangle plugins build` rewrites `id` before signing: the",
   "# " ++ publisherPlaceholder ++
     " segment becomes your identity key's fingerprint and",
   "# `@<version>` is forced to match `version` below. Both parts are required —",
   "# the kernel rejects an id without `@<version>` (ENTANGLE-E0201)."]

def tierComment : List Text :=
  ["# Declared tier ceiling, 1..=5. `runtime = \"wasm\"` supports tiers 1-3;",
   "# tiers 4-5 require `runtime = \"native\"`.",
   "#   1 pure        no I/O at all (logging is host-provided and always available)",
   "#   2 sandboxed   scoped local storage",
   "#   3 networked   outbound network to declared hosts"]

def capabilityComment : List Text :=
  ["# Declaring a capability whose minimum tier is ABOVE `tier` above fails",
   "# validation with ENTANGLE-E0042. Declaring a tier higher than your",
   "# capabilities need is allowed (the effective tier is the max of the two),",
   "# but grant the least privilege you can.",
   "#",
   "#   capability                  min tier",
   "#   \"compute.cpu\" = \x7b\x7d           2",
   "#   \"compute.gpu\" = \x7b\x7d           3",
   "#   \"compute.npu\" = \x7b\x7d           3",
   "#   \"storage.local\" = \x7b scope = \"plugin\" \x7d   1",
   "#   \"storage.local\" = \x7b scope = \"shared\" \x7d   2",
   "#   \"net.lan\" = \x7b\x7d               3",
   "#   \"net.wan\" = \x7b\x7d               3",
   "#   \"agent.invoke\" = \x7b\x7d          2",
   "#   \"storage.share.<name>\" = \x7b mode = \"ro\" \x7d 4   (requires runtime = \"native\")",
   "#   \"mesh.peer\" = \x7b\x7d             4               (requires runtime = \"native\")",
   "#   \"host.docker-socket\" = \x7b\x7d    5               (requires runtime = \"native\")"]

/-- `render_manifest`. -/
def renderManifest (name : Text) (tier : UInt8) (description : Text) : Text :=
  unlines (headComment ++
    ["[plugin]".toList,
     "id = \"".toList ++ publisherPlaceholder ++ "/".toList ++ name ++ "@0.1.0\"".toList,
     "version = \"0.1.0\"".toList,
     []] ++
    tierComment ++
    ["tier = ".toList ++ decimal tier.toNat,
     "runtime = \"wasm\"".toList,
     "description = \"".toList ++ description ++ "\"".toList,
     []] ++
    capabilityComment ++
    ["[capabilities]".toList,
     [],
     "[build]".toList,
     "wit_world = \"entangle:plugin@0.1.0/plugin\"".toList,
     "target = \"wasm32-wasip2\"".toList])

/-! ## The command -/

structure NewOptions where
  name : Text
  path : Option Text
  tier : UInt8
  description : Option Text
  sdk : Text
  force : Bool

inductive NewError
  | invalidName (name : Text)
  | tierOutOfRange (tier : UInt8)
  | sdk (message : Text)
  | createDirs (path message : Text)
  | existing (paths : List Text)
  | write (path message : Text)
  deriving DecidableEq

/-- The other files, and where they take the SDK from. -/
structure Templates (σ : Type) where
  parseSdk : Text → Except Text σ
  cargoToml : Text → σ → Text
  libRs : Text → Text
  readme : Text → UInt8 → σ → Text

/-- The errors of the file system, if any. -/
structure Disk where
  createDirAll : Text → Option Text
  present : Text → Bool
  write : Text → Text → Option Text

/-- `Path::join` with a relative path. -/
def joinPath (dir file : Text) : Text :=
  if dir = [] ∨ dir.getLast? = some '/' then dir ++ file else dir ++ '/' :: file

def renderGitignore : Text := "target/\ndist/\nCargo.lock\n"

def NewOptions.dir (opts : NewOptions) : Text := opts.path.getD opts.name

def NewOptions.descriptionText (opts : NewOptions) : Text :=
  opts.description.getD (opts.name ++ " — an Entanglement plugin")

def NewOptions.manifestPath (opts : NewOptions) : Text := joinPath opts.dir "entangle.toml"

section Run
variable {σ : Type} (templates : Templates σ) (disk : Disk) (opts : NewOptions)

def newFiles (sdk : σ) : List (Text × Text) :=
  [(joinPath opts.dir "Cargo.toml", templates.cargoToml opts.name sdk),
   (joinPath opts.dir "src/lib.rs", templates.libRs opts.name),
   (opts.manifestPath, renderManifest opts.name opts.tier opts.descriptionText),
   (joinPath opts.dir "README.md", templates.readme opts.name opts.tier sdk),
   (joinPath opts.dir ".gitignore", renderGitignore)]

/-- The part of `run` before the files are written. -/
def prepare : Except NewError (List (Text × Text)) := do
  if !PluginId.isValidName opts.name then throw (.invalidName opts.name)
  if !(1 ≤ opts.tier && opts.tier ≤ 3) then throw (.tierOutOfRange opts.tier)
  let sdk ← (templates.parseSdk opts.sdk).mapError .sdk
  let src := joinPath opts.dir "src"
  (disk.createDirAll src).elim (.ok ()) fun message => .error (.createDirs src message)
  let files := newFiles templates opts sdk
  let existing := (files.map Prod.fst).filter disk.present
  if !opts.force && !existing.isEmpty then throw (.existing existing)
  pure files

/-- Write the files in their order, up to the first that cannot be written. -/
def writeAll : List (Text × Text) → List (Text × Text) × Except NewError Unit
  | [] => ([], .ok ())
  | file :: files =>
    match disk.write file.1 file.2 with
    | some message => ([], .error (.write file.1 message))
    | none => (file :: (writeAll files).1, (writeAll files).2)

/-- `run`: what it writes, and its result. -/
def run : List (Text × Text) × Except NewError Unit :=
  match prepare templates disk opts with
  | .error e => ([], .error e)
  | .ok files => writeAll disk files

variable {templates disk opts}

theorem writeAll_eq_ok {files written : List (Text × Text)}
    (h : writeAll disk files = (written, .ok ())) : written = files := by
  induction files generalizing written with
  | nil => cases h; rfl
  | cons file files ih =>
    unfold writeAll at h
    split at h
    · cases h
    · obtain ⟨hwritten, hrest⟩ := Prod.mk.inj h
      rw [← hwritten, ih (Prod.ext rfl hrest : writeAll disk files = ((writeAll disk files).1, .ok ()))]

/-- A run that succeeds has written the manifest. -/
theorem manifest_mem_of_run {files : List (Text × Text)}
    (h : run templates disk opts = (files, .ok ())) :
    (opts.manifestPath, renderManifest opts.name opts.tier opts.descriptionText) ∈ files := by
  unfold run at h
  split at h
  · cases h
  · next files' hprepare =>
    rw [writeAll_eq_ok h]
    unfold prepare at hprepare
    obtain ⟨-, hprepare⟩ := except_guard_eq_ok.1 hprepare
    obtain ⟨-, hprepare⟩ := except_guard_eq_ok.1 hprepare
    obtain ⟨sdk, -, hprepare⟩ := except_bind_eq_ok.1 hprepare
    obtain ⟨_, -, hprepare⟩ := except_bind_eq_ok.1 hprepare
    obtain ⟨-, hprepare⟩ := except_guard_eq_ok.1 hprepare
    cases hprepare
    simp [newFiles]

end Run

/-! ## The manifest as TOML -/

/-- A line of a comment. -/
def commentLine (t : Text) : Toml.Line := .comment t.tail

def openLines (id : Text) (tier : UInt8) : List Toml.Line :=
  headComment.map commentLine ++
    [.header "plugin", .string "id" id, .string "version" "0.1.0", .blank] ++
    tierComment.map commentLine ++
    [.number "tier" tier.toNat, .string "runtime" "wasm"]

def closeLines : List Toml.Line :=
  .blank :: capabilityComment.map commentLine ++
    [.header "capabilities", .blank, .header "build",
     .string "wit_world" "entangle:plugin@0.1.0/plugin",
     .string "target" "wasm32-wasip2"]

/-- The id of a plugin in its first version. -/
def versionedId (publisher name : Text) : Text := publisher ++ '/' :: name ++ "@0.1.0"

def pluginTable (id : Text) (tier : UInt8) (description : Text) : TomlValue :=
  .table
    [("description", .string description),
     ("id", .string id),
     ("runtime", .string "wasm"),
     ("tier", .scalar (.integer tier.toNat)),
     ("version", .string "0.1.0")]

/-- The manifest as a document. -/
def manifestRoot (id : Text) (tier : UInt8) (description : Text) : List (Text × TomlValue) :=
  [("build", .table
      [("target", .string "wasm32-wasip2"),
       ("wit_world", .string "entangle:plugin@0.1.0/plugin")]),
   ("capabilities", .table []),
   ("plugin", pluginTable id tier description)]

def isComment : Text → Bool
  | '#' :: text => text.all Toml.isCommentChar
  | _ => false

/-- A literal is checked on its characters. -/
theorem isComment_ofList {l : List Char} (h : isComment l = true) :
    isComment (String.ofList l).toList = true := by
  rw [String.toList_ofList]
  exact h

theorem isComment_append {a b : Text} (ha : isComment a = true)
    (hb : b.all Toml.isCommentChar = true) : isComment (a ++ b) = true := by
  unfold isComment at ha
  split at ha
  · next text =>
    change (text ++ b).all Toml.isCommentChar = true
    rw [List.all_append, ha, hb]
    rfl
  · cases ha

theorem isComment_headComment : ∀ t ∈ headComment, isComment t = true := by
  have hplaceholder : publisherPlaceholder.all Toml.isCommentChar = true := by decide
  have hrest : " segment becomes your identity key's fingerprint and".toList.all Toml.isCommentChar =
      true := by decide +kernel
  simp only [headComment, List.forall_mem_cons]
  refine ⟨?_, ?_, ?_, isComment_append (isComment_append (by decide) hplaceholder) hrest, ?_, ?_,
    List.forall_mem_nil _⟩
  all_goals exact isComment_ofList (by decide +kernel)

theorem isComment_tierComment : ∀ t ∈ tierComment, isComment t = true := by
  simp only [tierComment, List.forall_mem_cons]
  refine ⟨?_, ?_, ?_, ?_, ?_, List.forall_mem_nil _⟩
  all_goals exact isComment_ofList (by decide +kernel)

theorem isComment_capabilityComment : ∀ t ∈ capabilityComment, isComment t = true := by
  simp only [capabilityComment, List.forall_mem_cons]
  refine ⟨?_, ?_, ?_, ?_, ?_, ?_, ?_, ?_, ?_, ?_, ?_, ?_, ?_, ?_, ?_, ?_, ?_, List.forall_mem_nil _⟩
  all_goals exact isComment_ofList (by decide +kernel)

def manifestLines (id : Text) (tier : UInt8) (description : Text) : List Toml.Line :=
  openLines id tier ++ .string "description" description :: closeLines

theorem map_print_comments {ts : List Text} (h : ∀ t ∈ ts, isComment t = true) :
    (ts.map commentLine).map Toml.Line.print = ts := by
  rw [List.map_map]
  refine (List.map_congr_left fun t ht => ?_).trans (List.map_id ts)
  have ht := h t ht
  unfold isComment at ht
  split at ht
  · rfl
  · cases ht

theorem print_id (name : Text) : (Toml.Line.string "id" (versionedId publisherPlaceholder name)).print =
    "id = \"" ++ publisherPlaceholder ++ "/" ++ name ++ "@0.1.0\"" := by
  unfold Toml.Line.print versionedId
  simp only [List.append_assoc, List.cons_append]
  rfl

theorem printAll_eq (lines : List Toml.Line) :
    Toml.printAll lines = unlines (lines.map Toml.Line.print) := by
  rw [unlines, List.flatMap_map]
  rfl

/-- The lines other than comments, with the fields that are filled in. -/
theorem print_fields (tier : UInt8) (description : Text) :
    (Toml.Line.header "plugin").print = "[plugin]" ∧
    (Toml.Line.string "version" "0.1.0").print = "version = \"0.1.0\"" ∧
    (Toml.Line.number "tier" tier.toNat).print = "tier = " ++ decimal tier.toNat ∧
    (Toml.Line.string "runtime" "wasm").print = "runtime = \"wasm\"" ∧
    (Toml.Line.string "description" description).print =
      "description = \"" ++ description ++ "\"" ∧
    (Toml.Line.header "capabilities").print = "[capabilities]" ∧
    (Toml.Line.header "build").print = "[build]" ∧
    (Toml.Line.string "wit_world" "entangle:plugin@0.1.0/plugin").print =
      "wit_world = \"entangle:plugin@0.1.0/plugin\"" ∧
    (Toml.Line.string "target" "wasm32-wasip2").print =
      "target = \"wasm32-wasip2\"" := by
  have htier : "tier".toList ++ " = ".toList = "tier = ".toList := by decide
  have hdescription : "description".toList ++ " = \"".toList = "description = \"".toList := by decide
  have hquote : ['"'] = "\"".toList := by decide
  refine ⟨by decide, by decide, ?_, by decide, ?_, by decide, by decide, by decide, by decide⟩
  · rw [Toml.Line.print, htier]
  · rw [Toml.Line.print, hdescription, hquote]

/-- The text is that of its lines. -/
theorem renderManifest_eq (name : Text) (tier : UInt8) (description : Text) :
    renderManifest name tier description =
      Toml.printAll (manifestLines (versionedId publisherPlaceholder name) tier description) := by
  obtain ⟨hplugin, hversion, htier, hruntime, hdescription, hcapabilities, hbuild, hwitWorld, htarget⟩ :=
    print_fields tier description
  have hblank : Toml.Line.blank.print = [] := rfl
  rw [printAll_eq]
  unfold manifestLines openLines closeLines renderManifest
  simp only [List.map_append, List.map_cons, List.map_nil, map_print_comments isComment_headComment,
    map_print_comments isComment_tierComment, map_print_comments isComment_capabilityComment,
    print_id, hplugin, hversion, htier, hruntime, hdescription, hcapabilities, hbuild, hwitWorld,
    htarget, hblank, List.append_assoc, List.cons_append, List.nil_append]

/-- The text up to the description, and from there. -/
theorem renderManifest_split (name : Text) (tier : UInt8) (description : Text) :
    renderManifest name tier description =
      Toml.printAll (openLines (versionedId publisherPlaceholder name) tier) ++ ("description" ++
        " = \"" ++ (description ++ '"' :: '\n' :: Toml.printAll closeLines)) := by
  rw [renderManifest_eq, manifestLines, Toml.printAll, List.flatMap_append, List.flatMap_cons]
  simp only [Toml.Line.print, List.append_assoc, List.cons_append, List.nil_append]
  rfl

theorem foldlM_comments (ts : List Text) (s : Toml.State) :
    (ts.map commentLine).foldlM Toml.State.apply s = some s := by
  induction ts with
  | nil => rfl
  | cons t ts ih => exact ih

def openRoot (id : Text) (tier : UInt8) : List (Text × TomlValue) :=
  [("plugin", .table
      [("id", .string id),
       ("runtime", .string "wasm"),
       ("tier", .scalar (.integer tier.toNat)),
       ("version", .string "0.1.0")])]

theorem build_openLines (id : Text) (tier : UInt8) :
    Toml.build (openLines id tier) = some ⟨openRoot id tier, some "plugin".toList⟩ := by
  simp only [Toml.build, openLines, List.foldlM_append, foldlM_comments]
  rfl

/-- The sections after the description, in front of those whose names come later. -/
theorem foldlM_closeLines {root : List (Text × TomlValue)}
    (h : ∀ e ∈ root, "capabilities".toList < e.1) (current : Option Text) :
    closeLines.foldlM Toml.State.apply ⟨root, current⟩ =
      some ⟨("build", .table
          [("target", .string "wasm32-wasip2"),
           ("wit_world", .string "entangle:plugin@0.1.0/plugin")]) ::
        ("capabilities", .table []) :: root, some "build".toList⟩ := by
  have hbuild : ∀ e ∈ ("capabilities".toList, (.table [] : TomlValue)) :: root,
      "build".toList < e.1 := by
    have hlt : "build".toList < "capabilities".toList := by decide
    exact List.forall_mem_cons.2 ⟨hlt, fun e he => hlt.trans (h e he)⟩
  have htarget : ∀ e ∈ [("wit_world".toList,
      (.string "entangle:plugin@0.1.0/plugin".toList : TomlValue))], "target".toList < e.1 := by
    have hlt : "target".toList < "wit_world".toList := by decide
    exact List.forall_mem_singleton.2 hlt
  unfold closeLines
  simp only [List.cons_append, List.foldlM_cons, List.foldlM_append, foldlM_comments,
    Toml.State.apply, Option.bind_eq_bind, Option.bind_some, Toml.State.enter_of_lt h,
    Toml.State.enter_of_lt hbuild, Toml.State.assign_of_lt hbuild (List.forall_mem_nil _),
    Toml.State.assign_of_lt hbuild htarget]
  rfl

/-- The description comes first among the keys of its section. -/
theorem assign_description (id : Text) (tier : UInt8) (description : Text) :
    Toml.State.assign ⟨openRoot id tier, some "plugin".toList⟩ "description"
        (.string description) =
      some ⟨[("plugin", pluginTable id tier description)], some "plugin".toList⟩ := by
  refine Toml.State.assign_of_lt (List.forall_mem_nil _) ?_ _
  simp only [List.forall_mem_cons]
  exact ⟨by decide, by decide, by decide, by decide, List.forall_mem_nil _⟩

theorem build_manifestLines (id : Text) (tier : UInt8) (description : Text) :
    Toml.build (manifestLines id tier description) =
      some ⟨manifestRoot id tier description, some "build".toList⟩ := by
  have hopen : (openLines id tier).foldlM Toml.State.apply ⟨[], none⟩ = _ := build_openLines id tier
  have hplugin : ∀ e ∈ [("plugin".toList, pluginTable id tier description)],
      "capabilities".toList < e.1 := by
    have hlt : "capabilities".toList < "plugin".toList := by decide
    exact List.forall_mem_singleton.2 hlt
  have hdescription : Toml.State.apply ⟨openRoot id tier, some "plugin".toList⟩
      (.string "description" description) = _ := assign_description id tier description
  rw [Toml.build, manifestLines, List.foldlM_append, hopen, Option.bind_eq_bind, Option.bind_some,
    List.foldlM_cons, hdescription, Option.bind_eq_bind, Option.bind_some, foldlM_closeLines hplugin,
    manifestRoot]

/-- Three quotes, which open and end a string of several lines. -/
def tripleQuote : Text := ['"', '"', '"']

theorem tripleQuote_ofList {l : List Char} (h : ¬ tripleQuote <:+: l) :
    ¬ tripleQuote <:+: (String.ofList l).toList := by
  rw [String.toList_ofList]
  exact h

theorem tripleQuote_capabilityComment : ∀ t ∈ capabilityComment, ¬ tripleQuote <:+: t := by
  simp only [capabilityComment, List.forall_mem_cons]
  refine ⟨?_, ?_, ?_, ?_, ?_, ?_, ?_, ?_, ?_, ?_, ?_, ?_, ?_, ?_, ?_, ?_, ?_, List.forall_mem_nil _⟩
  all_goals exact tripleQuote_ofList (by decide +kernel)

/-- A string of several lines that is begun in the description does not end after it. -/
theorem tripleQuote_closeLines : ¬ tripleQuote <:+: Toml.printAll closeLines := by
  refine Toml.not_infix_printAll (by decide) (by decide) ?_
  unfold closeLines
  simp only [List.cons_append, List.forall_mem_cons, List.forall_mem_append]
  refine ⟨by decide, ?_, by decide, by decide, by decide, by decide, by decide, List.forall_mem_nil _⟩
  intro line hline
  have hprint := List.mem_map_of_mem (f := Toml.Line.print) hline
  rw [map_print_comments isComment_capabilityComment] at hprint
  exact tripleQuote_capabilityComment _ hprint

theorem plain_comments {ts : List Text} (h : ∀ t ∈ ts, isComment t = true) :
    ∀ line ∈ ts.map commentLine, line.plain = true := by
  intro line hline
  obtain ⟨t, ht, rfl⟩ := List.mem_map.1 hline
  have ht := h t ht
  unfold isComment at ht
  split at ht
  · exact ht
  · cases ht

theorem plain_openLines {id : Text} (hid : ∀ c ∈ id, Toml.isUnescaped c = true) (tier : UInt8) :
    ∀ line ∈ openLines id tier, line.plain = true := by
  have hkey : (Toml.Line.string "id" id).plain = true := Toml.Line.plain_string (by decide) hid
  have htier : (Toml.Line.number "tier" tier.toNat).plain = true :=
    Toml.Line.plain_number (by decide) (tier.toNat_lt.trans (by decide))
  unfold openLines
  simp only [List.forall_mem_append, List.forall_mem_cons]
  exact ⟨⟨⟨plain_comments isComment_headComment, by decide, hkey, by decide, rfl, List.forall_mem_nil _⟩,
    plain_comments isComment_tierComment⟩, htier, by decide, List.forall_mem_nil _⟩

theorem plain_closeLines : ∀ line ∈ closeLines, line.plain = true := by
  unfold closeLines
  simp only [List.cons_append, List.forall_mem_cons, List.forall_mem_append]
  exact ⟨rfl, plain_comments isComment_capabilityComment, by decide, rfl, by decide, by decide,
    by decide, List.forall_mem_nil _⟩

/-- The libraries are what the tool takes them for. -/
structure Standard (tools : Tools) : Prop where
  reads : Toml.Lawful tools.toml.parse
  prints : tools.toml.PrintsParsed
  roundTrips : tools.toml.RoundTrips
  semver : tools.semver "0.1.0" = some ⟨"0.1.0"⟩

section Reading
variable {tools : Tools} {name description : Text} {tier : UInt8}

theorem parse_manifestLines (htools : Standard tools) {id : Text}
    (hid : ∀ c ∈ id, Toml.isUnescaped c = true)
    (hdescription : ∀ c ∈ description, Toml.isUnescaped c = true) :
    tools.toml.parse (Toml.printAll (manifestLines id tier description)) =
      .ok (.table (manifestRoot id tier description)) := by
  refine htools.reads.complete _ _ ?_ (build_manifestLines id tier description)
  unfold manifestLines
  simp only [List.forall_mem_append, List.forall_mem_cons]
  exact ⟨plain_openLines hid tier, Toml.Line.plain_string (by decide) hdescription, plain_closeLines⟩

theorem unescaped_of_bare {t : Text} (h : t.all Toml.isBareChar = true) :
    ∀ c ∈ t, Toml.isUnescaped c = true := fun c hc =>
  Toml.isUnescaped_of_bare (List.all_eq_true.1 h c hc)

theorem bare_of_validName (h : PluginId.isValidName name = true) :
    name.all Toml.isBareChar = true := by
  cases name with
  | nil => rfl
  | cons first rest =>
    simp only [PluginId.isValidName, Bool.and_eq_true, List.all_eq_true, Bool.or_eq_true] at h
    obtain ⟨⟨-, hfirst⟩, hrest⟩ := h
    rw [List.all_cons, Bool.and_eq_true, List.all_eq_true]
    have hlower : ∀ {c : Char}, c.isLower = true → Toml.isBareChar c = true := by
      intro c hc
      have hdef : c.isAlpha = (c.isUpper || c.isLower) := rfl
      simp [Toml.isBareChar, Char.isAlphanum, hdef, hc]
    refine ⟨hlower hfirst, fun c hc => ?_⟩
    rcases hrest c hc with (hc | hc) | hc
    · exact hlower hc
    · simp [Toml.isBareChar, Char.isAlphanum, hc]
    · simp [Toml.isBareChar, hc]

/-- An id of a publisher and a name needs no escapes. -/
theorem unescaped_id {publisher : Text} (hpublisher : publisher.all Toml.isBareChar = true)
    (hname : PluginId.isValidName name = true) :
    ∀ c ∈ versionedId publisher name, Toml.isUnescaped c = true := by
  have hversion : "@0.1.0".toList.all Toml.isUnescaped = true := by decide
  intro c hc
  rw [versionedId, List.mem_append, List.mem_append, List.mem_cons] at hc
  rcases hc with (hc | rfl | hc) | hc
  · exact unescaped_of_bare hpublisher c hc
  · decide
  · exact unescaped_of_bare (bare_of_validName hname) c hc
  · exact List.all_eq_true.1 hversion c hc

/-- Only a description that needs no escapes is read back. -/
theorem unescaped_of_description (htools : Standard tools)
    (hname : PluginId.isValidName name = true) {doc : TomlValue}
    (hparse : tools.toml.parse (renderManifest name tier description) = .ok doc)
    (hdescription : doc.getIn ["plugin".toList, "description".toList] = some (.string description)) :
    ∀ c ∈ description, Toml.isUnescaped c = true := by
  have hid : ∀ c ∈ versionedId publisherPlaceholder name, Toml.isUnescaped c = true := unescaped_id (by decide) hname
  rw [renderManifest_split] at hparse
  obtain ⟨v, after, hstring, hv⟩ := htools.reads.sound _ _ _ _ _ (plain_openLines hid tier)
    (build_openLines (versionedId publisherPlaceholder name) tier) (by decide) hparse
  have hpath : (⟨openRoot (versionedId publisherPlaceholder name) tier, some "plugin".toList⟩ : Toml.State).path
      "description".toList = ["plugin".toList, "description".toList] := rfl
  rw [hpath, hdescription] at hv
  cases hv
  exact hstring.unescaped_of_value tripleQuote_closeLines

end Reading

/-! ## Building -/

section Building
variable {tools : Tools} {name description fingerprint : Text} {tier : UInt8}

theorem pluginNameFromId_versionedId (hname : PluginId.isValidName name = true) (publisher : Text) :
    pluginNameFromId (versionedId publisher name) = name := by
  have hbare := bare_of_validName hname
  have hslash : '/' ∉ name ++ '@' :: "0.1.0" := by
    rw [List.mem_append]
    rintro (hmem | hmem)
    · exact absurd (List.all_eq_true.1 hbare _ hmem) (by decide)
    · exact absurd hmem (by decide)
  have htext : versionedId publisher name = publisher ++ '/' :: (name ++ '@' :: "0.1.0") := by
    rw [versionedId, List.append_assoc]
    rfl
  unfold pluginNameFromId
  rw [htext, Text.splitLast_append publisher hslash]
  dsimp only
  rw [Text.splitLast_append name (by decide)]

theorem rewriteId_manifest (htools : Standard tools) (hname : PluginId.isValidName name = true)
    (hdescription : ∀ c ∈ description, Toml.isUnescaped c = true) :
    rewriteId tools (renderManifest name tier description) fingerprint =
      .ok (manifestRoot (versionedId fingerprint name) tier description,
        versionedId fingerprint name) := by
  have hid : ∀ c ∈ versionedId publisherPlaceholder name, Toml.isUnescaped c = true :=
    unescaped_id (by decide) hname
  have hrawName := pluginNameFromId_versionedId hname publisherPlaceholder
  have hne : name ≠ [] := by
    rintro rfl
    cases hname
  unfold rewriteId
  rw [renderManifest_eq, parse_manifestLines htools hid hdescription]
  change (if pluginNameFromId (versionedId publisherPlaceholder name) = [] then Except.error _
    else Except.ok _) = _
  rw [hrawName, if_neg hne]
  rfl

theorem decodeTier_toNat (tier : UInt8) : decodeTier (.scalar (.integer tier.toNat)) = some tier := by
  have hlt := tier.toNat_lt
  simp only [decodeTier]
  rw [if_pos (by omega), Int.toNat_natCast, UInt8.ofNat_toNat]

theorem decodePlugin_fields (semver : SemverParse) (id description : Text) (tier : TomlValue) :
    decodePlugin semver
      [("description", .string description), ("id", .string id),
        ("runtime", .string "wasm"), ("tier", tier),
        ("version", .string "0.1.0")] =
      (semver "0.1.0").bind fun _ => (decodeTier tier).bind fun t => some ⟨id, t, .wasm⟩ := rfl

/-- What the manifest is to the validation. -/
def wasmManifest (id : Text) (tier : UInt8) : Manifest := ⟨⟨id, tier, .wasm⟩, [], none⟩

theorem decodeManifest_manifestRoot (htools : Standard tools) (id : Text) :
    decodeManifest tools.semver (.table (manifestRoot id tier description)) =
      some (wasmManifest id tier) := by
  have hplugin := decodePlugin_fields tools.semver id description (.scalar (.integer tier.toNat))
  rw [htools.semver, decodeTier_toNat] at hplugin
  exact Option.bind_eq_some_iff.2 ⟨_, hplugin, rfl⟩

theorem print_versionedId (publisher name : Text) :
    PluginId.print ⟨publisher, name, ⟨"0.1.0"⟩⟩ = versionedId publisher name := by
  have hat : '@' :: Version.print ⟨"0.1.0"⟩ = "@0.1.0" := by decide
  rw [versionedId, ← hat]
  rfl

theorem parse_versionedId (htools : Standard tools) (hname : PluginId.isValidName name = true)
    (crypto : Crypto) (keypair : KeyPair) :
    PluginId.parse tools.semver (versionedId (keyFingerprintHex crypto keypair) name) =
      .ok ⟨keyFingerprintHex crypto keypair, name, ⟨"0.1.0"⟩⟩ := by
  have hlower : (keyFingerprintHex crypto keypair).map Char.toLower = keyFingerprintHex crypto keypair :=
    Hex.toLower_encode _
  have hlen : Text.len (keyFingerprintHex crypto keypair) = 32 := by
    rw [keyFingerprintHex, Hex.len_encode, List.Vector.toList_length]
  have hhex : (keyFingerprintHex crypto keypair).all Text.isAsciiHexdigit = true :=
    List.all_eq_true.2 fun _ => Hex.isAsciiHexdigit_of_mem_encode
  have hnew : PluginId.new (keyFingerprintHex crypto keypair) name ⟨"0.1.0"⟩ =
      .ok ⟨keyFingerprintHex crypto keypair, name, ⟨"0.1.0"⟩⟩ := by
    unfold PluginId.new
    dsimp only
    rw [hlower, if_neg (by simp [hlen, hhex]), if_neg (by simp [hname])]
  have hat : '@' ∉ "0.1.0".toList := by decide
  rw [← print_versionedId]
  exact PluginId.parse_print ⟨_, _, _, hnew⟩ hat htools.semver

theorem bare_fingerprint (crypto : Crypto) (keypair : KeyPair) :
    (keyFingerprintHex crypto keypair).all Toml.isBareChar = true := by
  have hdigit : ∀ n : Fin 16, Toml.isBareChar (Hex.digit n) = true := by decide
  refine List.all_eq_true.2 fun c hc => ?_
  obtain ⟨n, rfl⟩ := Hex.exists_digit_of_mem_encode hc
  exact hdigit n

variable (tools name tier description) in
/-- The manifest says what it was given, no other field depends on the description, and it is rendered
for the key under the plugin's id. -/
structure Builds (fingerprint : Text) : Prop where
  parsed : tools.toml.parse (renderManifest name tier description) =
    .ok (.table (manifestRoot (versionedId publisherPlaceholder name) tier description))
  rendered : ∃ r, renderDistManifest tools (renderManifest name tier description) fingerprint = .ok r ∧
    r.pluginId = versionedId fingerprint name ∧ r.effectiveTier = tier ∧
    tools.toml.parse r.toml = .ok (.table (manifestRoot (versionedId fingerprint name) tier description))

/-- The tiers of WebAssembly. -/
theorem tryFrom_wasm (htier : 1 ≤ tier ∧ tier ≤ 3) : ∃ declared, Tier.tryFrom tier.toNat = some declared ∧
    runtimeFits .wasm declared = true ∧ UInt8.ofNat declared.toNat = tier := by
  have hcases : tier = 1 ∨ tier = 2 ∨ tier = 3 := by
    simp only [UInt8.le_iff_toNat_le] at htier
    simp only [← UInt8.toNat_inj]
    obtain ⟨hlow, hhigh⟩ := htier
    change 1 ≤ tier.toNat at hlow
    change tier.toNat ≤ 3 at hhigh
    change tier.toNat = 1 ∨ tier.toNat = 2 ∨ tier.toNat = 3
    omega
  rcases hcases with rfl | rfl | rfl
  · exact ⟨.pure, rfl, by decide, by decide⟩
  · exact ⟨.sandboxed, rfl, by decide, by decide⟩
  · exact ⟨.networked, rfl, by decide, by decide⟩

theorem validate_wasmManifest (htools : Standard tools) (hname : PluginId.isValidName name = true)
    (htier : 1 ≤ tier ∧ tier ≤ 3) (crypto : Crypto) (keypair : KeyPair) :
    ∃ v, validate tools.semver
        (wasmManifest (versionedId (keyFingerprintHex crypto keypair) name) tier) = .ok v ∧
      v.pluginId.print = versionedId (keyFingerprintHex crypto keypair) name ∧
      UInt8.ofNat v.effectiveTier.toNat = tier := by
  obtain ⟨declared, hdeclared, hfits, heq⟩ := tryFrom_wasm htier
  exact ⟨_, validate_eq_ok.2 ⟨declared, _, [], hdeclared,
    parse_versionedId htools hname crypto keypair, rfl, Tier.pure_le declared, hfits, rfl⟩,
    print_versionedId _ name, heq⟩

theorem renderValidated_manifest (htools : Standard tools)
    (hname : PluginId.isValidName name = true) (htier : 1 ≤ tier ∧ tier ≤ 3)
    (hdescription : ∀ c ∈ description, Toml.isUnescaped c = true) (crypto : Crypto)
    (keypair : KeyPair) :
    ∃ text v, renderValidated tools (renderManifest name tier description)
        (keyFingerprintHex crypto keypair) =
        .ok (text, versionedId (keyFingerprintHex crypto keypair) name, v) ∧
      UInt8.ofNat v.effectiveTier.toNat = tier ∧
      tools.toml.parse text = .ok (.table
        (manifestRoot (versionedId (keyFingerprintHex crypto keypair) name) tier description)) := by
  have hid := unescaped_id (bare_fingerprint crypto keypair) hname
  obtain ⟨text, hprint⟩ : ∃ text, tools.toml.print (.table
      (manifestRoot (versionedId (keyFingerprintHex crypto keypair) name) tier description)) = .ok text :=
    htools.prints _ _ (parse_manifestLines htools hid hdescription)
  obtain ⟨v, hvalid, hpluginId, heffective⟩ := validate_wasmManifest htools hname htier crypto keypair
  have hparse := htools.roundTrips _ _ hprint
  have hread : tools.readManifest text =
      .ok (wasmManifest (versionedId (keyFingerprintHex crypto keypair) name) tier) := by
    unfold Tools.readManifest
    rw [hparse]
    dsimp only
    rw [decodeManifest_manifestRoot htools]
  refine ⟨text, v, ?_, heffective, hparse⟩
  unfold renderValidated
  rw [rewriteId_manifest htools hname hdescription]
  refine except_bind_eq_ok.2 ⟨_, rfl, ?_⟩
  refine except_bind_eq_ok.2 ⟨(), rfl, ?_⟩
  refine except_bind_eq_ok.2 ⟨text, except_mapError_eq_ok.2 hprint, ?_⟩
  refine except_bind_eq_ok.2 ⟨_, except_mapError_eq_ok.2 hread, ?_⟩
  refine except_bind_eq_ok.2 ⟨v, except_mapError_eq_ok.2 hvalid, ?_⟩
  exact if_neg (not_not.2 hpluginId)

theorem builds_of_unescaped (htools : Standard tools) (hname : PluginId.isValidName name = true)
    (htier : 1 ≤ tier ∧ tier ≤ 3) (hdescription : ∀ c ∈ description, Toml.isUnescaped c = true)
    (crypto : Crypto) (keypair : KeyPair) :
    Builds tools name description tier (keyFingerprintHex crypto keypair) := by
  obtain ⟨text, v, hrender, heffective, hparse⟩ :=
    renderValidated_manifest htools hname htier hdescription crypto keypair
  constructor
  · rw [renderManifest_eq]
    exact parse_manifestLines htools (unescaped_id (by decide) hname) hdescription
  · refine ⟨_, except_map_eq_ok.2 ⟨_, hrender, rfl⟩, rfl, heffective, hparse⟩

end Building

/-- **Scaffolded projects build** when the description needs no escapes: no quote, no backslash and no
control character but the tab. -/
theorem scaffold_builds_iff (tools : Tools) (htools : Standard tools) (crypto : Crypto)
    (keypair : KeyPair) (opts : NewOptions) (hname : PluginId.isValidName opts.name = true)
    (htier : 1 ≤ opts.tier ∧ opts.tier ≤ 3) :
    (∀ (σ : Type) (templates : Templates σ) (disk : Disk) (files : List (Text × Text)),
      run templates disk opts = (files, .ok ()) →
        (opts.manifestPath, renderManifest opts.name opts.tier opts.descriptionText) ∈ files) ∧
    (Builds tools opts.name opts.descriptionText opts.tier (keyFingerprintHex crypto keypair) ↔
      ∀ c ∈ opts.descriptionText, Toml.isUnescaped c = true) := by
  refine ⟨fun σ templates disk files hrun => manifest_mem_of_run hrun, fun hbuilds => ?_, fun h => ?_⟩
  · exact unescaped_of_description htools hname hbuilds.parsed rfl
  · exact builds_of_unescaped htools hname htier h crypto keypair

/-- The tool with a parser for lines of TOML. -/
noncomputable def lineTools : Tools where
  toml := Doc.Format.ofParser Toml.read
  semver s := if s = "0.1.0" then some ⟨"0.1.0"⟩ else none
  describe _ := "not a manifest"
  printBundle _ := .error "unsupported"

theorem standard_lineTools : Standard lineTools where
  reads := Toml.lawful_read
  prints := Doc.Format.ofParser_printsParsed _
  roundTrips := Doc.Format.ofParser_roundTrips _
  semver := by
    dsimp only [lineTools]
    rw [if_pos rfl]

def demoOptions (description : Text) : NewOptions where
  name := "demo"
  path := none
  tier := 1
  description := some description
  sdk := "auto"
  force := false

theorem scaffold_builds_plain :
    Builds lineTools "demo" "a plugin" 1 (keyFingerprintHex sampleCrypto sampleKeyPair) := by
  have hdescription : "a plugin".toList.all Toml.isUnescaped = true := by decide
  exact ((scaffold_builds_iff lineTools standard_lineTools sampleCrypto sampleKeyPair
    (demoOptions "a plugin") (by decide) (by decide)).2).2 (List.all_eq_true.1 hdescription)

/-- A description that ends its string and begins a section. -/
def injectedDescription : Text := "x\"\n[signature]\npublisher = \"y"

def injectedLines (id : Text) : List Toml.Line :=
  openLines id 1 ++
    .string "description" "x" :: .header "signature" ::
      .string "publisher" "y" :: closeLines

def injectedRoot (id : Text) : List (Text × TomlValue) :=
  manifestRoot id 1 "x".toList ++
    [("signature".toList, .table [("publisher".toList, .string "y".toList)])]

theorem renderManifest_injected :
    renderManifest "demo" 1 injectedDescription =
      Toml.printAll (injectedLines (versionedId publisherPlaceholder "demo")) := by
  have hlines : ∀ rest : Text, "description" ++ " = \"" ++
      (injectedDescription ++ '"' :: '\n' :: rest) =
        (Toml.Line.string "description" "x").print ++ ['\n'] ++
          ((Toml.Line.header "signature").print ++ ['\n'] ++
            ((Toml.Line.string "publisher" "y").print ++ ['\n'] ++ rest)) := fun _ => rfl
  rw [renderManifest_split, hlines, injectedLines]
  simp only [Toml.printAll, List.flatMap_append, List.flatMap_cons]

theorem build_injectedLines (id : Text) :
    Toml.build (injectedLines id) = some ⟨injectedRoot id, some "build".toList⟩ := by
  have hopen : (openLines id 1).foldlM Toml.State.apply ⟨[], none⟩ = _ := build_openLines id 1
  have hdescription : Toml.State.apply ⟨openRoot id 1, some "plugin".toList⟩
      (.string "description" "x") = _ := assign_description id 1 "x"
  have henter : ∀ plugin, Toml.State.apply ⟨[("plugin".toList, plugin)], some "plugin".toList⟩
      (.header "signature") = some ⟨[("plugin", plugin), ("signature", .table [])],
        some "signature".toList⟩ := fun _ => rfl
  have hassign : ∀ plugin, Toml.State.apply
      ⟨[("plugin".toList, plugin), ("signature".toList, .table [])], some "signature".toList⟩
      (.string "publisher".toList "y".toList) = some ⟨[("plugin".toList, plugin),
        ("signature".toList, .table [("publisher".toList, .string "y".toList)])],
        some "signature".toList⟩ := fun _ => rfl
  have hroot : ∀ e ∈ [("plugin".toList, pluginTable id 1 "x".toList),
      ("signature".toList, .table [("publisher".toList, .string "y".toList)])],
      "capabilities".toList < e.1 := by
    have hplugin : "capabilities".toList < "plugin".toList := by decide
    have hsignature : "capabilities".toList < "signature".toList := by decide
    exact List.forall_mem_cons.2 ⟨hplugin, List.forall_mem_singleton.2 hsignature⟩
  rw [Toml.build, injectedLines, List.foldlM_append, hopen, Option.bind_eq_bind, Option.bind_some,
    List.foldlM_cons, hdescription, Option.bind_eq_bind, Option.bind_some, List.foldlM_cons, henter,
    Option.bind_eq_bind, Option.bind_some, List.foldlM_cons, hassign, Option.bind_eq_bind,
    Option.bind_some, foldlM_closeLines hroot, injectedRoot, manifestRoot]
  rfl

theorem plain_injectedLines {id : Text} (hid : ∀ c ∈ id, Toml.isUnescaped c = true) :
    ∀ line ∈ injectedLines id, line.plain = true := by
  unfold injectedLines
  simp only [List.forall_mem_append, List.forall_mem_cons]
  exact ⟨plain_openLines hid 1, by decide, by decide, by decide, plain_closeLines⟩

theorem parse_injected : lineTools.toml.parse (renderManifest "demo" 1 injectedDescription) =
    .ok (.table (injectedRoot (versionedId publisherPlaceholder "demo"))) := by
  have hid : ∀ c ∈ versionedId publisherPlaceholder "demo", Toml.isUnescaped c = true :=
    unescaped_id (by decide) (by decide)
  rw [renderManifest_injected]
  exact standard_lineTools.reads.complete _ _ (plain_injectedLines hid) (build_injectedLines _)

theorem renderDistManifest_injected (fingerprint : Text)
    (hfingerprint : Text.eqIgnoreAsciiCase "y".toList fingerprint = false) :
    renderDistManifest lineTools (renderManifest "demo".toList 1 injectedDescription) fingerprint =
      .error (.signerMismatch "y".toList fingerprint) := by
  have hrewrite : rewriteId lineTools (renderManifest "demo".toList 1 injectedDescription) fingerprint =
      .ok (injectedRoot (versionedId fingerprint "demo".toList),
        versionedId fingerprint "demo".toList) := by
    unfold rewriteId
    rw [parse_injected]
    rfl
  have hsigner : checkSigner (injectedRoot (versionedId fingerprint "demo".toList)) fingerprint =
      .error (.signerMismatch "y".toList fingerprint) := by
    change (if !Text.eqIgnoreAsciiCase "y".toList fingerprint then _ else _) = _
    rw [hfingerprint]
    rfl
  unfold renderDistManifest renderValidated
  rw [hrewrite]
  change ((checkSigner (injectedRoot (versionedId fingerprint "demo".toList)) fingerprint >>=
    fun _ => _).map _) = _
  rw [hsigner]
  rfl

/-- The description adds a section that the manifest was not given, and the project does not build. -/
theorem description_adds_signature :
    (∃ doc, lineTools.toml.parse (renderManifest "demo".toList 1 injectedDescription) = .ok doc ∧
      doc.getIn ["plugin".toList, "description".toList] = some (.string "x".toList) ∧
      doc.getIn ["signature".toList, "publisher".toList] = some (.string "y".toList)) ∧
    renderDistManifest lineTools (renderManifest "demo".toList 1 injectedDescription)
        (keyFingerprintHex sampleCrypto sampleKeyPair) =
      .error (.signerMismatch "y".toList (keyFingerprintHex sampleCrypto sampleKeyPair)) ∧
    ¬ Builds lineTools "demo".toList injectedDescription 1
        (keyFingerprintHex sampleCrypto sampleKeyPair) := by
  have hrender := renderDistManifest_injected (keyFingerprintHex sampleCrypto sampleKeyPair)
    (by rw [keyFingerprintHex_sample]; decide)
  refine ⟨⟨_, parse_injected, rfl, rfl⟩, hrender, fun hbuilds => ?_⟩
  obtain ⟨r, hr, -⟩ := hbuilds.rendered
  rw [hrender] at hr
  cases hr

end Entanglement.Cli.Scaffold
