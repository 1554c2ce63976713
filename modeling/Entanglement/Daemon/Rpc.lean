import Entanglement.Lib.Json
import Entanglement.Lib.Lines
import Entanglement.Types.Task

/-!
# The line protocol of the RPC socket (`entangle-bin`, `server.rs`)

`serve_client` reads a request a line under a byte limit, gives it to `methods::dispatch` and writes
the reply before it reads on. `serveLine` is one round of its loop and `serveClient` the loop.
Everything that a client can observe is in the log of a connection: what was read into the line
buffer, which lines were dispatched and what was written back.

A connection is determined by the lines of its input (`Framed`): the lines that are short enough and
UTF-8 are served up to the first one that is not; the rest is left unread.

Reads do not time out and writes do not fail. The read-ahead of the `BufReader`, of fixed size, is
not part of the line buffer.
-/

namespace Entanglement.Daemon

open Lib

/-! ## Replies (`methods.rs`) -/

structure RpcError where
  code : Int
  message : Text

/-- A JSON-RPC response: the id of the request, and the serialised result or an error. -/
structure Resp where
  id : JsonValue
  outcome : Except RpcError JsonValue

/-- `ok_resp` and `error_resp`: the fields in the order of the struct, as `serde_json` writes them. -/
def Resp.print (writer : Json.Writer) (r : Resp) : Text :=
  let outcome : Text × JsonValue := match r.outcome with
    | .ok result => ("result", result)
    | .error e => ("error",
        .table [("code", .scalar (.integer e.code)), ("message", .string e.message)])
  writer.print (.table [("jsonrpc", .string "2.0"), ("id", r.id), outcome])

theorem Resp.one_line (writer : Json.Writer) (r : Resp) : '\n' ∉ r.print writer := writer.one_line _

/-! ## The loop -/

def maxRequestBytes : Nat := 4 * OneShotTask.defaultMaxInputBytes.toNat + 64 * 1024

/-- One byte more than a line may have, for its delimiter. -/
def lineLimit : Nat := maxRequestBytes + 1

inductive RpcEvent
  /-- The line buffer after a read. -/
  | read (buf : Bytes)
  | dispatched (line : Text)
  /-- A reply was written, with a line feed, and flushed. -/
  | replied (reply : Text)

/-- The reply to an over-long line. -/
def tooLong : Text :=
  "\x7b\"jsonrpc\":\"2.0\",\"id\":null,\"error\":\x7b\"code\":-32600," ++
    "\"message\":\"invalid request: request exceeds " ++ decimal maxRequestBytes ++
    " bytes\"\x7d\x7d"

def notUtf8 : Text := "request line is not valid UTF-8"

/-- How a round ends: the loop goes on with what is unread and the number of lines dispatched, or
`serve_client` returns. -/
inductive Next
  | again (count : Nat) (rest : Bytes)
  | closed (result : Except Text Unit)

section Server

/- `answer n line` is what `methods::dispatch` returns for `line` when it is the `n`-th line of the
connection. The daemon's state, which other clients change too, is behind it. -/
variable (writer : Json.Writer) (answer : Nat → Text → Resp)

/-- The round from the bytes of the line on. -/
def handle (count : Nat) (lineBytes rest : Bytes) : List RpcEvent × Next :=
  match Text.fromUtf8 lineBytes with
  | none => ([], .closed (.error notUtf8))
  | some line =>
    if Text.trim line = [] then ([], .again count rest)
    else ([.dispatched line, .replied ((answer count line).print writer)], .again (count + 1) rest)

def serveLine (count : Nat) (input : Bytes) : List RpcEvent × Next :=
  let (buf, rest) := readUntil newline lineLimit input
  if buf.length = 0 then ([.read buf], .closed (.ok ()))
  else if buf.getLast? ≠ some newline ∧ buf.length > maxRequestBytes then
    ([.read buf, .replied tooLong], .closed (.ok ()))
  else
    let lineBytes := if buf.getLast? = some newline then buf.dropLast else buf
    let (events, next) := handle writer answer count lineBytes rest
    (.read buf :: events, next)

theorem handle_again {count m : Nat} {lineBytes rest rest' : Bytes}
    (h : (handle writer answer count lineBytes rest).2 = .again m rest') : rest' = rest := by
  unfold handle at h
  split at h
  · cases h
  · split at h
    · cases h; rfl
    · cases h; rfl

variable {input : Bytes} {result : Except Text Unit} {log : List RpcEvent}

/-- Each round but the last takes bytes off the input. -/
theorem serveLine_again {count m : Nat} {rest : Bytes}
    (h : (serveLine writer answer count input).2 = .again m rest) : rest.length < input.length := by
  have happend := congrArg List.length (readUntil_append newline lineLimit input)
  rw [List.length_append] at happend
  unfold serveLine at h
  simp only at h
  split at h
  · cases h
  · rename_i hne
    split at h
    · cases h
    · have hrest := handle_again writer answer h
      rw [hrest]
      omega

def serveClient (count : Nat) (input : Bytes) : List RpcEvent × Except Text Unit :=
  let round := serveLine writer answer count input
  match _h : round.2 with
  | .closed result => (round.1, result)
  | .again m rest =>
    let out := serveClient m rest
    (round.1 ++ out.1, out.2)
termination_by input.length
decreasing_by exact serveLine_again writer answer _h

theorem serveClient_of_closed {count : Nat} {events : List RpcEvent}
    (h : serveLine writer answer count input = (events, .closed result)) :
    serveClient writer answer count input = (events, result) := by
  rw [serveClient, h]

theorem serveClient_of_again {count m : Nat} {rest : Bytes} {events : List RpcEvent}
    (h : serveLine writer answer count input = (events, .again m rest)) :
    serveClient writer answer count input =
      (events ++ (serveClient writer answer m rest).1, (serveClient writer answer m rest).2) := by
  rw [serveClient, h]

/-! ## One round, by the line it reads -/

theorem serveLine_nil (count : Nat) :
    serveLine writer answer count [] = ([.read []], .closed (.ok ())) := by
  rw [serveLine, readUntil_nil]
  rfl

/-- A line that is not too long, with its delimiter. -/
theorem serveLine_line {l : Bytes} (hl : newline ∉ l) (hlen : l.length ≤ maxRequestBytes)
    (count : Nat) (rest : Bytes) :
    serveLine writer answer count (l ++ newline :: rest) =
      (.read (l ++ [newline]) :: (handle writer answer count l rest).1,
        (handle writer answer count l rest).2) := by
  have hread := readUntil_line hl (Nat.lt_succ_of_le hlen) rest
  have hlast : (l ++ [newline]).getLast? = some newline := List.getLast?_concat
  unfold serveLine
  rw [show lineLimit = maxRequestBytes.succ from rfl, hread]
  simp only [hlast, List.dropLast_concat, List.length_append, List.length_cons, List.length_nil,
    Nat.succ_ne_zero, not_true_eq_false, ne_eq, false_and, if_false, if_true]

theorem getLast?_ne {l : Bytes} (hl : newline ∉ l) : l.getLast? ≠ some newline := fun h =>
  hl (List.mem_of_getLast? h)

/-- A last line that is not too long, without a delimiter. -/
theorem serveLine_last {l : Bytes} (hl : newline ∉ l) (hne : l ≠ [])
    (hlen : l.length ≤ maxRequestBytes) (count : Nat) :
    serveLine writer answer count l =
      (.read l :: (handle writer answer count l []).1, (handle writer answer count l []).2) := by
  have htake : l.take lineLimit = l := List.take_of_length_le (Nat.le_succ_of_le hlen)
  have hdrop : l.drop lineLimit = [] := List.drop_of_length_le (Nat.le_succ_of_le hlen)
  have hread : readUntil newline lineLimit l = (l.take lineLimit, l.drop lineLimit) :=
    readUntil_of_not_mem (htake.symm ▸ hl)
  rw [htake, hdrop] at hread
  have hlast := getLast?_ne hl
  have hlength : ¬ l.length = 0 := fun h => hne (List.length_eq_zero_iff.1 h)
  unfold serveLine
  rw [hread]
  simp only [hlength, hlast, if_false, ne_eq, not_false_eq_true, true_and,
    if_neg (Nat.not_lt.2 hlen)]

/-- An over-long line: one byte too much of it is read, and then no more. -/
theorem serveLine_long {l : Bytes} (hl : newline ∉ l) (hlen : maxRequestBytes < l.length)
    (count : Nat) (rest : Bytes) :
    serveLine writer answer count (l ++ rest) =
      ([.read (l.take lineLimit), .replied tooLong], .closed (.ok ())) := by
  have htake : (l ++ rest).take lineLimit = l.take lineLimit := List.take_append_of_le_length hlen
  have hnot : newline ∉ l.take lineLimit := fun h => hl (List.mem_of_mem_take h)
  have hread : readUntil newline lineLimit (l ++ rest) =
      ((l ++ rest).take lineLimit, (l ++ rest).drop lineLimit) :=
    readUntil_of_not_mem (htake.symm ▸ hnot)
  have hlength : (l.take lineLimit).length = maxRequestBytes + 1 := List.length_take_of_le hlen
  have hlast := getLast?_ne hnot
  unfold serveLine
  rw [hread, htake]
  simp only [hlength, Nat.succ_ne_zero, if_false, ne_eq, hlast, not_false_eq_true, true_and,
    if_pos (Nat.lt_succ_self maxRequestBytes)]

/-! ## What a connection does with its lines -/

/-- A line that is served, blank ones apart. -/
def serviceable (l : Bytes) : Bool := decide (l.length ≤ maxRequestBytes) && (Text.fromUtf8 l).isSome

/-- The requests among the lines: the text of those up to the first that cannot be served, without
the blank ones. -/
def requestLines (ls : List Bytes) : List Text :=
  ((ls.takeWhile serviceable).filterMap Text.fromUtf8).filter fun line => Text.trim line ≠ []

def dispatchedLines (log : List RpcEvent) : List Text :=
  log.filterMap fun
    | .dispatched line => some line
    | _ => none

/-- Logs in which every dispatched line has its reply before the next read. Of the other replies
there is one at most, and it is the last thing that happens. -/
inductive Orderly : Nat → List RpcEvent → Prop
  | closed {count : Nat} (buf : Bytes) : Orderly count [.read buf]
  | refused {count : Nat} (buf : Bytes) : Orderly count [.read buf, .replied tooLong]
  | blank {count : Nat} {log : List RpcEvent} (buf : Bytes) : Orderly count log →
      Orderly count (.read buf :: log)
  | served {count : Nat} {log : List RpcEvent} (buf : Bytes) (line : Text) :
      Orderly (count + 1) log →
      Orderly count (.read buf :: .dispatched line :: .replied ((answer count line).print writer) :: log)

/-- How a connection ends, by the first line that cannot be served. -/
def Ending (ls : List Bytes) (log : List RpcEvent) (result : Except Text Unit) : Prop :=
  match ls.dropWhile serviceable with
  | [] => result = .ok () ∧ ∃ before, log = before ++ [.read []]
  | l :: _ =>
    if maxRequestBytes < l.length then
      result = .ok () ∧ ∃ before, log = before ++ [.read (l.take lineLimit), .replied tooLong]
    else result = .error notUtf8 ∧ ∃ before buf, log = before ++ [.read buf]

/-- A connection with the input lines `ls`, from its line `count` on. -/
structure Framed (count : Nat) (ls : List Bytes) (out : List RpcEvent × Except Text Unit) : Prop where
  lines : dispatchedLines out.1 = requestLines ls
  orderly : Orderly writer answer count out.1
  bounded : ∀ buf, .read buf ∈ out.1 → buf.length ≤ maxRequestBytes + 1
  ending : Ending ls out.1 out.2

theorem serviceable_of_some {l : Bytes} {line : Text} (hlen : l.length ≤ maxRequestBytes)
    (hline : Text.fromUtf8 l = some line) : serviceable l = true := by
  rw [serviceable, hline, decide_eq_true hlen]
  rfl

theorem not_serviceable_of_long {l : Bytes} (hlen : maxRequestBytes < l.length) :
    serviceable l = false := by
  rw [serviceable, decide_eq_false (Nat.not_le.2 hlen), Bool.false_and]

theorem not_serviceable_of_none {l : Bytes} (hline : Text.fromUtf8 l = none) :
    serviceable l = false := by
  rw [serviceable, hline, Option.isSome_none, Bool.and_false]

theorem requestLines_of_not {l : Bytes} (h : serviceable l = false) (ls : List Bytes) :
    requestLines (l :: ls) = [] := by
  rw [requestLines, List.takeWhile_cons_of_neg (by rw [h]; exact Bool.false_ne_true)]
  rfl

theorem requestLines_of_some {l : Bytes} {line : Text} (hlen : l.length ≤ maxRequestBytes)
    (hline : Text.fromUtf8 l = some line) (ls : List Bytes) :
    requestLines (l :: ls) = if Text.trim line = [] then requestLines ls else line :: requestLines ls := by
  rw [requestLines, List.takeWhile_cons_of_pos (serviceable_of_some hlen hline),
    List.filterMap_cons_some hline]
  by_cases hblank : Text.trim line = []
  · rw [if_pos hblank, List.filter_cons_of_neg (by simpa using hblank)]
    rfl
  · rw [if_neg hblank, List.filter_cons_of_pos (by simpa using hblank)]
    rfl

/-- Earlier events do not change how a connection ends. -/
theorem Ending.append {ls : List Bytes} (h : Ending ls log result) (events : List RpcEvent) :
    Ending ls (events ++ log) result := by
  unfold Ending at h ⊢
  split at h
  · obtain ⟨hresult, before, rfl⟩ := h
    exact ⟨hresult, events ++ before, (List.append_assoc ..).symm⟩
  · split at h
    · rename_i hlong
      obtain ⟨hresult, before, rfl⟩ := h
      rw [if_pos hlong]
      exact ⟨hresult, events ++ before, (List.append_assoc ..).symm⟩
    · rename_i hlong
      obtain ⟨hresult, before, buf, rfl⟩ := h
      rw [if_neg hlong]
      exact ⟨hresult, events ++ before, buf, (List.append_assoc ..).symm⟩

theorem ending_of_not {l : Bytes} (hl : serviceable l = false) {ls : List Bytes} :
    Ending (l :: ls) log result ↔
      if maxRequestBytes < l.length then
        result = .ok () ∧ ∃ before, log = before ++ [.read (l.take lineLimit), .replied tooLong]
      else result = .error notUtf8 ∧ ∃ before buf, log = before ++ [.read buf] := by
  unfold Ending
  rw [List.dropWhile_cons_of_neg (by rw [hl]; exact Bool.false_ne_true)]

theorem Ending.cons {l : Bytes} (hl : serviceable l = true) {ls : List Bytes}
    (h : Ending ls log result) : Ending (l :: ls) log result := by
  unfold Ending at h ⊢
  rwa [List.dropWhile_cons_of_pos hl]

variable {writer answer}

theorem framed_end (count : Nat) : Framed writer answer count [] ([.read []], .ok ()) where
  lines := rfl
  orderly := .closed []
  bounded := by
    intro buf hbuf
    cases List.mem_singleton.1 hbuf
    exact Nat.zero_le _
  ending := ⟨rfl, [], rfl⟩

theorem framed_long {l : Bytes} (hlen : maxRequestBytes < l.length) (count : Nat) (ls : List Bytes) :
    Framed writer answer count (l :: ls)
      ([.read (l.take lineLimit), .replied tooLong], .ok ()) where
  lines := (requestLines_of_not (not_serviceable_of_long hlen) ls).symm
  orderly := .refused _
  bounded := by
    intro buf hbuf
    simp only [List.mem_cons, RpcEvent.read.injEq, List.not_mem_nil, or_false, reduceCtorEq] at hbuf
    rw [hbuf]
    exact List.length_take_le ..
  ending := by
    rw [ending_of_not (not_serviceable_of_long hlen), if_pos hlen]
    exact ⟨rfl, [], rfl⟩

theorem framed_not_utf8 {l buf : Bytes} (hlen : l.length ≤ maxRequestBytes)
    (hline : Text.fromUtf8 l = none) (hbuf : buf.length ≤ maxRequestBytes + 1) (count : Nat)
    (ls : List Bytes) :
    Framed writer answer count (l :: ls) ([.read buf], .error notUtf8) where
  lines := (requestLines_of_not (not_serviceable_of_none hline) ls).symm
  orderly := .closed buf
  bounded := by
    intro other hother
    cases List.mem_singleton.1 hother
    exact hbuf
  ending := by
    rw [ending_of_not (not_serviceable_of_none hline), if_neg (Nat.not_lt.2 hlen)]
    exact ⟨rfl, [], buf, rfl⟩

section Served

variable {l buf : Bytes} {line : Text} {count : Nat} {ls : List Bytes}
  {out : List RpcEvent × Except Text Unit} (hlen : l.length ≤ maxRequestBytes)
  (hline : Text.fromUtf8 l = some line) (hbuf : buf.length ≤ maxRequestBytes + 1)

include hlen hline hbuf

theorem framed_blank (hblank : Text.trim line = []) (h : Framed writer answer count ls out) :
    Framed writer answer count (l :: ls) (.read buf :: out.1, out.2) where
  lines := by
    rw [requestLines_of_some hlen hline, if_pos hblank, ← h.lines]
    rfl
  orderly := .blank buf h.orderly
  bounded := by
    intro other hother
    rcases List.mem_cons.1 hother with hother | hother
    · cases hother
      exact hbuf
    · exact h.bounded other hother
  ending := (h.ending.append [.read buf]).cons (serviceable_of_some hlen hline)

theorem framed_served (hblank : Text.trim line ≠ []) (h : Framed writer answer (count + 1) ls out) :
    Framed writer answer count (l :: ls)
      (.read buf :: .dispatched line :: .replied ((answer count line).print writer) :: out.1, out.2) where
  lines := by
    rw [requestLines_of_some hlen hline, if_neg hblank, ← h.lines]
    rfl
  orderly := .served buf line h.orderly
  bounded := by
    intro other hother
    simp only [List.mem_cons, RpcEvent.read.injEq, reduceCtorEq, false_or] at hother
    rcases hother with rfl | hother
    · exact hbuf
    · exact h.bounded other hother
  ending := (h.ending.append [.read buf, .dispatched line, .replied _]).cons
    (serviceable_of_some hlen hline)

end Served

/-- A round that handles the line `l`, with what the following rounds do. -/
theorem framed_round {l buf rest : Bytes} {count : Nat} {ls : List Bytes}
    (hlen : l.length ≤ maxRequestBytes) (hbuf : buf.length ≤ maxRequestBytes + 1)
    (hround : serveLine writer answer count input =
      (.read buf :: (handle writer answer count l rest).1, (handle writer answer count l rest).2))
    (hrest : ∀ m, Framed writer answer m ls (serveClient writer answer m rest)) :
    Framed writer answer count (l :: ls) (serveClient writer answer count input) := by
  cases hline : Text.fromUtf8 l with
  | none =>
    have hhandle : handle writer answer count l rest = ([], .closed (.error notUtf8)) := by
      rw [handle, hline]
    rw [hhandle] at hround
    rw [serveClient_of_closed writer answer hround]
    exact framed_not_utf8 hlen hline hbuf count ls
  | some line =>
    by_cases hblank : Text.trim line = []
    · have hhandle : handle writer answer count l rest = ([], .again count rest) := by
        rw [handle, hline]
        exact if_pos hblank
      rw [hhandle] at hround
      rw [serveClient_of_again writer answer hround]
      exact framed_blank hlen hline hbuf hblank (hrest count)
    · have hhandle : handle writer answer count l rest =
          ([.dispatched line, .replied ((answer count line).print writer)], .again (count + 1) rest) := by
        rw [handle, hline]
        exact if_neg hblank
      rw [hhandle] at hround
      rw [serveClient_of_again writer answer hround]
      exact framed_served hlen hline hbuf hblank (hrest (count + 1))

/-- **A connection is determined by the lines of its input.** -/
theorem framed_serveClient (input : Bytes) (count : Nat) :
    Framed writer answer count (pieces input) (serveClient writer answer count input) := by
  have hnil (m : Nat) : serveClient writer answer m [] = ([.read []], .ok ()) :=
    serveClient_of_closed writer answer (serveLine_nil writer answer m)
  induction input using lines_induction generalizing count with
  | last l hl =>
    rw [pieces_last hl]
    by_cases hlen : l.length ≤ maxRequestBytes
    · by_cases hne : l = []
      · subst hne
        rw [hnil]
        -- the empty piece after the last line feed is blank, and is not read
        have hempty : Text.fromUtf8 [] = some [] := Text.fromUtf8_utf8 []
        have hend : Framed writer answer count [] ([.read []], .ok ()) := framed_end count
        refine ⟨?_, hend.orderly, hend.bounded, hend.ending.cons (serviceable_of_some hlen hempty)⟩
        rw [requestLines_of_some hlen hempty]
        rfl
      · refine framed_round hlen (Nat.le_succ_of_le hlen) (serveLine_last writer answer hl hne hlen count)
          fun m => ?_
        rw [hnil]
        exact framed_end m
    · have hlong := Nat.not_le.1 hlen
      have hround := serveLine_long writer answer hl hlong count []
      rw [List.append_nil] at hround
      rw [serveClient_of_closed writer answer hround]
      exact framed_long hlong count []
  | line l rest hl ih =>
    rw [pieces_line hl]
    by_cases hlen : l.length ≤ maxRequestBytes
    · refine framed_round hlen ?_ (serveLine_line writer answer hl hlen count rest) ih
      rw [List.length_append]
      exact Nat.succ_le_succ hlen
    · have hlong := Nat.not_le.1 hlen
      rw [serveClient_of_closed writer answer (serveLine_long writer answer hl hlong count _)]
      exact framed_long hlong count _

theorem newline_not_mem_tooLong : '\n' ∉ tooLong := by
  have hdigits (n : Nat) : '\n' ∉ decimal n := fun h =>
    absurd (Text.isDigit_of_mem_decimal h) (by decide)
  unfold tooLong
  simp only [List.mem_append, hdigits, or_false, not_or]
  decide

/-- Every reply of an orderly log is one line. -/
theorem Orderly.one_line {count : Nat} (h : Orderly writer answer count log) :
    ∀ reply, .replied reply ∈ log → '\n' ∉ reply := by
  induction h with
  | closed buf =>
    intro reply hreply
    cases List.mem_singleton.1 hreply
  | refused buf =>
    intro reply hreply
    simp only [List.mem_cons, reduceCtorEq, RpcEvent.replied.injEq, List.not_mem_nil, or_false,
      false_or] at hreply
    rw [hreply]
    exact newline_not_mem_tooLong
  | blank buf _ ih =>
    intro reply hreply
    simp only [List.mem_cons, reduceCtorEq, false_or] at hreply
    exact ih reply hreply
  | served buf line _ ih =>
    intro reply hreply
    simp only [List.mem_cons, reduceCtorEq, RpcEvent.replied.injEq, false_or] at hreply
    rcases hreply with rfl | hreply
    · exact Resp.one_line writer _
    · exact ih reply hreply

/-- A request of one line that is not too long is dispatched as it is. -/
theorem dispatched_line {line : Text} (hline : '\n' ∉ line) (hlen : Text.len line ≤ maxRequestBytes)
    (hblank : Text.trim line ≠ []) (rest : Bytes) (count : Nat) :
    ∃ more, dispatchedLines (serveClient writer answer count (Text.utf8 line ++ newline :: rest)).1 =
      line :: more := by
  have hutf8 : newline ∉ Text.utf8 line := fun h => hline (newline_mem_utf8.1 h)
  refine ⟨requestLines (pieces rest), ?_⟩
  rw [(framed_serveClient _ count).lines, pieces_line hutf8,
    requestLines_of_some (by rwa [Text.length_utf8]) (Text.fromUtf8_utf8 line), if_neg hblank]

theorem len_array_le {limit : Nat} (hlimit : 1 ≤ limit) (h : input.length ≤ limit) :
    Text.len (Json.Value.nums (input.map UInt8.toNat)).print ≤ 4 * limit + 1 := by
  cases input with
  | nil =>
    have hempty : Text.len (Json.Value.nums []).print = 2 := by decide
    rw [List.map_nil, hempty]
    omega
  | cons b bs =>
    have hbytes : ∀ m ∈ b.toNat :: bs.map UInt8.toNat, m < 256 := by
      intro m hm
      obtain ⟨byte, -, rfl⟩ := List.mem_map.1 (List.map_cons ▸ hm : m ∈ (b :: bs).map UInt8.toNat)
      exact byte.toNat_lt
    have hle := Json.len_print_nums_le hbytes
    rw [List.length_cons, List.length_map] at hle
    rw [List.length_cons] at h
    rw [List.map_cons]
    omega

/-- An input of the largest size, written as a JSON array, leaves room for the rest of a request. -/
theorem len_request_le {before after : Text}
    (hinput : input.length ≤ OneShotTask.defaultMaxInputBytes.toNat)
    (hother : Text.len before + Text.len after < 64 * 1024) :
    Text.len (before ++ (Json.Value.nums (input.map UInt8.toNat)).print ++ after) ≤
      maxRequestBytes := by
  have harray := len_array_le (by decide) hinput
  unfold maxRequestBytes
  generalize OneShotTask.defaultMaxInputBytes.toNat = limit at harray ⊢
  simp only [Text.len_append]
  omega

variable (writer answer)

/-- **Line framing of the RPC socket**: what a connection does with its input is given by the input's
lines, each reply is one line, a line of at most `maxRequestBytes` is served, and a request with an
input of the largest size fits. -/
theorem rpc_line_framing :
    (∀ input, Framed writer answer 0 (pieces input) (serveClient writer answer 0 input)) ∧
    (∀ input reply, .replied reply ∈ (serveClient writer answer 0 input).1 → '\n' ∉ reply) ∧
    (∀ line rest, '\n' ∉ line → Text.len line ≤ maxRequestBytes → Text.trim line ≠ [] →
      ∃ more, dispatchedLines (serveClient writer answer 0 (Text.utf8 line ++ newline :: rest)).1 =
        line :: more) ∧
    (∀ (before after : Text) (input : Bytes),
      input.length ≤ OneShotTask.defaultMaxInputBytes.toNat →
      Text.len before + Text.len after < 64 * 1024 →
      Text.len (before ++ (Json.Value.nums (input.map UInt8.toNat)).print ++ after) ≤
        maxRequestBytes) :=
  ⟨fun input => framed_serveClient input 0,
    fun input => (framed_serveClient input 0).orderly.one_line,
    fun _ rest hline hlen hblank => dispatched_line hline hlen hblank rest 0,
    fun _ _ _ hinput hother => len_request_le hinput hother⟩

end Server

/-- A request of one line is served. -/
theorem rpc_line_framing_ping :
    ∃ more, dispatchedLines (serveClient (.compact ⟨fun _ => ['0'], fun _ => by decide⟩)
        (fun _ _ => ⟨.scalar .null, .ok (.string "pong".toList)⟩) 0
        (Text.utf8 "ping".toList ++ newline :: [])).1 = "ping".toList :: more :=
  (rpc_line_framing _ _).2.2.1 _ _ (by decide) (by decide) (by decide)

end Entanglement.Daemon
