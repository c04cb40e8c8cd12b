import RequestFlow.FileSystem
import RequestFlow.Network.Session

/-!
# Fetching a file

A command that performs one request for a `file:` url and tells how many bytes came back.  The
transport answers from a directory: a path that leads to a file gives its bytes as a stream with their
length, any other path gives a response that says why.
-/

namespace RequestFlow.FileFetch

/-! ## Directories -/

/-- What a path leads to. -/
inductive Entry
  | file (content : Bytes)
  /-- A file that may not be opened. -/
  | locked
  /-- The size of what is there cannot be told. -/
  | unreadable (reason : PathFault)
  deriving DecidableEq, Repr

abbrev Directory := Bytes → Entry

/-- The directory that holds the given files and nothing else. -/
def directoryOf (files : List (Bytes × Bytes)) : Directory := fun path =>
  match (FileSystem.ofFiles files).contentAt path with
  | .ok content => .file content
  | .error reason => .unreadable reason

/-! ## The command -/

def scheme : Bytes := text "file://"

/-- The path that a url names, if its scheme is the right one. -/
def pathOf? (url : Bytes) : Option Bytes :=
  if scheme.isPrefixOf url then some (url.drop scheme.length) else none

/-- The outcome of a request for what a path leads to. -/
def outcomeOf (path : Bytes) : Entry → Outcome Source
  | .file content =>
    match Header.ofPair (text "Content-Length") (Bytes.ofNat content.length) with
    | .error f => .failure ⟨.io, f.message⟩
    | .ok h =>
      .reply (Reply.ofStream 200 [h] (some (.chunked content content.length false)) content.length)
  | .locked => .failure ⟨.io, text "cannot open " ++ path⟩
  | .unreadable reason => .reply (Reply.ofBytes 404 [] reason.message)

/-- The outcome of a request for a url. -/
def outcomeFor (directory : Directory) (url : Bytes) : Outcome Source :=
  match pathOf? url with
  | none => .failure ⟨.malformedUrl, text "only file:// urls are supported"⟩
  | some path => outcomeOf path (directory path)

/-- How a run of the command ended. -/
structure Result where
  /-- The exit code, or the fault that ended the command. -/
  exit : Except Fault Nat
  out : Bytes := []
  err : Bytes := []
  logs : List LogRecord := []

def usage (program : Bytes) : Bytes :=
  text "Usage: " ++ program ++ text " file://<path>\n"

/-- What the command tells about the end of its request. -/
def tell (logs : List LogRecord) : Event → Option Result
  | .success _ _ r =>
    some { exit := .ok 0, logs
           out := text "Received " ++ Bytes.ofNat r.body.length ++ text " bytes (status " ++
             Bytes.ofInt r.status ++ text ")\n" }
  | .failure _ _ e =>
    some { exit := .ok 1, logs, err := text "Request failed: " ++ e.message ++ text "\n" }
  | _ => none

def logOf? : Event → Option LogRecord
  | .log r => some r
  | _ => none

def setup (directory : Directory) (request : Request) : Setup :=
  { config := { logAll := true }
    requests := [some request]
    script := some [Turn.deliver (outcomeFor directory request.url)]
    executor := some { hasWorker := true } }

/-- Runs the command with its name and arguments. -/
def run (directory : Directory) (program : Bytes) (args : List Bytes) : Result :=
  match args with
  | [] => { exit := .ok 1, err := usage program }
  | url :: _ =>
    match Request.make url with
    | .error f => { exit := .error f }
    | .ok request =>
      match (setup directory request).build with
      | .error f => { exit := .error f }
      | .ok w =>
        let (result, w) := w.apply (.perform ⟨0, .rest, .rest⟩)
        let logs := w.trace.toList.filterMap logOf?
        match result, w.trace.toList.findSome? (tell logs) with
        | .error f, _ => { exit := .error f, logs }
        | .ok _, some o => o
        | .ok _, none => { exit := .ok 1, logs }

end RequestFlow.FileFetch
